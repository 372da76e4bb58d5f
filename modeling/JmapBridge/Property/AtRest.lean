import JmapBridge.Model.Credentials
import Mathlib.Data.List.Forall2

/-! Whether encryption at rest shows. A store with a key is run beside a store without one,
under the same calls, and their answers are compared. -/

namespace JmapBridge

open Rust Rust.Str

inductive CredentialCall where
  | saveUser (user : UserId) (row : RegisteredUser) (usernameNonce tokenNonce : Nonce)
  | clearUserCredentials (user : UserId)
  | getUser (user : UserId)
  | getAllUsers
  | setMatrixPuppetToken (user : UserId) (token : String) (nonce : Nonce)
  | getMatrixPuppetToken (user : UserId)

inductive CredentialAnswer where
  | done
  | user (r : Option (UserId × RegisteredUser))
  | users (rs : List (UserId × RegisteredUser))
  | token (t : Option String)
deriving DecidableEq, Repr

/-- A call that writes: its answer, and the store it leaves. -/
def written (s : CredentialStore) (r : Except CredentialError CredentialStore) :
    Except CredentialError CredentialAnswer × CredentialStore :=
  match r with
  | .ok s' => (.ok .done, s')
  | .error e => (.error e, s)

def CredentialCall.run (lib : Cipher) (s : CredentialStore) :
    CredentialCall → Except CredentialError CredentialAnswer × CredentialStore
  | saveUser user row n n' => written s (JmapBridge.saveUser lib s user row n n')
  | clearUserCredentials user => (.ok .done, JmapBridge.clearUserCredentials s user)
  | getUser user => ((JmapBridge.getUser lib s user).map .user, s)
  | getAllUsers => ((JmapBridge.getAllUsers lib s).map .users, s)
  | setMatrixPuppetToken user token n =>
    written s (JmapBridge.setMatrixPuppetToken lib s user token n)
  | getMatrixPuppetToken user => ((JmapBridge.getMatrixPuppetToken lib s user).map .token, s)

/-- The answers to a sequence of calls. -/
def answers (lib : Cipher) :
    List CredentialCall → CredentialStore → List (Except CredentialError CredentialAnswer)
  | [], _ => []
  | c :: cs, s => (c.run lib s).1 :: answers lib cs (c.run lib s).2

/-- The calls are answered with the key as they are without one. -/
def Transparent (lib : Cipher) (key : EncryptionKey) (calls : List CredentialCall) : Prop :=
  answers lib calls ⟨some key, [], fun _ => none⟩ = answers lib calls ⟨none, [], fun _ => none⟩

/-- Decryption inverts encryption, and base64 is read back. -/
structure Cipher.Sound (lib : Cipher) : Prop where
  inverts : ∀ key nonce plaintext, ∃ ciphertext,
    lib.encrypt key nonce plaintext = some ciphertext ∧
      lib.decrypt key nonce ciphertext = some plaintext
  reads : ∀ b, lib.decode (lib.encode b) = some b
  nonempty : ∀ b, b ≠ [] → lib.encode b ≠ ""

/-! ### When it shows -/

/-- The token that the user's row was last saved with, unless it was cleared since. -/
def noteToken (saved : UserId → Option String) : CredentialCall → UserId → Option String
  | .saveUser user row _ _ => fun u => if u = user then some row.jmapToken else saved u
  | .clearUserCredentials user => fun u => if u = user then none else saved u
  | _ => saved

def savedToken (calls : List CredentialCall) : UserId → Option String :=
  calls.foldl noteToken fun _ => none

/-- The call reads the credentials of `user`. -/
def CredentialCall.Reads (user : UserId) : CredentialCall → Prop
  | getUser u => u = user
  | getAllUsers => True
  | _ => False

/-- No call reads a user who was saved with an empty token. -/
def NoBlankRead (calls : List CredentialCall) : Prop :=
  ∀ p c q, calls = p ++ c :: q → ∀ u, c.Reads u → savedToken p u ≠ some ""

/-! ### The two stores beside one another -/

section

variable {lib : Cipher} (hlib : lib.Sound) {key : EncryptionKey}

theorem fromUtf8_bytes (s : Str) : fromUtf8 (bytes s) = some s := by
  rw [fromUtf8, bytes, show (s.flatMap String.utf8EncodeChar).toByteArray = s.utf8Encode from rfl,
    List.utf8Decode?_utf8Encode]
  rfl

include hlib in
theorem encrypt_decrypt (key : EncryptionKey) (text : String) (nonce : Nonce) :
    ∃ stored, encrypt lib text key nonce = .ok stored ∧ stored ≠ "" ∧
      decrypt lib stored key = .ok text := by
  obtain ⟨ciphertext, hencrypt, hdecrypt⟩ := hlib.inverts key nonce.bytes (bytes text.toList)
  have hlen : nonce.bytes.length = nonceLen := nonce.length
  refine ⟨lib.encode (nonce.bytes ++ ciphertext), ?_, ?_, ?_⟩
  · rw [encrypt, hencrypt]
  · refine hlib.nonempty _ fun hnil => ?_
    have hzero := congrArg List.length hnil
    rw [List.length_append, hlen, nonceLen, List.length_nil] at hzero
    omega
  · rw [decrypt, hlib.reads]
    dsimp only
    rw [if_neg (by rw [List.length_append]; omega), ← hlen, List.take_left, List.drop_left,
      hdecrypt]
    dsimp only
    rw [fromUtf8_bytes]
    simp

/-- The row of the store with a key, and the row of the other. -/
structure RowMatches (lib : Cipher) (key : EncryptionKey) (saved : UserId → Option String)
    (r r' : UserId × RegisteredUser) : Prop where
  id : r.1 = r'.1
  url : r.2.jmapUrl = r'.2.jmapUrl
  username : decrypt lib r.2.jmapUsername key = .ok r'.2.jmapUsername
  cleared : saved r'.1 = none → r.2.jmapToken = "" ∧ r'.2.jmapToken = ""
  token : ∀ t, saved r'.1 = some t →
    r.2.jmapToken ≠ "" ∧ decrypt lib r.2.jmapToken key = .ok t ∧ r'.2.jmapToken = t

def TokenMatches (lib : Cipher) (key : EncryptionKey) : Option String → Option String → Prop
  | none, none => True
  | some stored, some t => decrypt lib stored key = .ok t
  | _, _ => False

structure Beside (lib : Cipher) (key : EncryptionKey) (saved : UserId → Option String)
    (s s' : CredentialStore) : Prop where
  keyed : s.encryptionKey = some key
  plain : s'.encryptionKey = none
  rows : List.Forall₂ (RowMatches lib key saved) s.users s'.users
  known : ∀ u, saved u ≠ none → ∃ r ∈ s'.users, r.1 = u
  tokens : ∀ u, TokenMatches lib key (s.puppetTokens u) (s'.puppetTokens u)

/-! ### Rows -/

theorem forall₂_right_mem {α β : Type} {R : α → β → Prop} {l : List α} {l' : List β}
    (h : List.Forall₂ R l l') : ∀ b ∈ l', ∃ a ∈ l, R a b := by
  induction h with
  | nil => simp
  | cons hab _ ih =>
    intro b hb
    rcases List.mem_cons.mp hb with rfl | hb
    · exact ⟨_, List.mem_cons_self, hab⟩
    · obtain ⟨a, ha, hR⟩ := ih b hb
      exact ⟨a, List.mem_cons_of_mem _ ha, hR⟩

variable {saved : UserId → Option String} {l l' : List (UserId × RegisteredUser)}

theorem any_rows (h : List.Forall₂ (RowMatches lib key saved) l l') (user : UserId) :
    (l.any (·.1 == user)) = l'.any (·.1 == user) := by
  induction h with
  | nil => rfl
  | cons hrow _ ih => rw [List.any_cons, List.any_cons, ih, hrow.id]

theorem upsertUser_eq (user : UserId) (row : RegisteredUser)
    (rows : List (UserId × RegisteredUser)) : upsertUser user row rows =
      (rows.map fun r => if r.1 = user then (user, row) else r) ++
        if rows.any (·.1 == user) then [] else [(user, row)] := by
  rw [upsertUser]
  split
  · rw [List.append_nil]
  · rename_i hnone
    have hne : ∀ r ∈ rows, ¬ r.1 = user := fun r hr heq =>
      hnone (List.any_eq_true.mpr ⟨r, hr, beq_iff_eq.mpr heq⟩)
    have hsame : (rows.map fun r => if r.1 = user then (user, row) else r) = rows :=
      (List.map_congr_left fun r hr => if_neg (hne r hr)).trans (List.map_id' rows)
    rw [hsame]

theorem RowMatches.other {r r' : UserId × RegisteredUser} (h : RowMatches lib key saved r r')
    {saved' : UserId → Option String} (hsaved : saved' r'.1 = saved r'.1) :
    RowMatches lib key saved' r r' :=
  ⟨h.id, h.url, h.username, fun hnone => h.cleared (hsaved ▸ hnone),
    fun t ht => h.token t (hsaved ▸ ht)⟩

theorem rows_upsert (h : List.Forall₂ (RowMatches lib key saved) l l') {user : UserId}
    {row row' : RegisteredUser} {saved' : UserId → Option String}
    (hother : ∀ u, u ≠ user → saved' u = saved u)
    (hnew : RowMatches lib key saved' (user, row) (user, row')) :
    List.Forall₂ (RowMatches lib key saved') (upsertUser user row l) (upsertUser user row' l') := by
  rw [upsertUser_eq, upsertUser_eq, any_rows h]
  refine List.rel_append ?_ ?_
  · rw [List.forall₂_map_left_iff, List.forall₂_map_right_iff]
    refine h.imp fun r r' hrow => ?_
    by_cases huser : r'.1 = user
    · rw [if_pos (hrow.id.trans huser), if_pos huser]
      exact hnew
    · rw [if_neg (hrow.id.symm ▸ huser), if_neg huser]
      exact hrow.other (hother r'.1 huser)
  · split
    · exact .nil
    · exact .cons hnew .nil

theorem rows_blank (h : List.Forall₂ (RowMatches lib key saved) l l') {user : UserId}
    {saved' : UserId → Option String} (hother : ∀ u, u ≠ user → saved' u = saved u)
    (hnone : saved' user = none) :
    List.Forall₂ (RowMatches lib key saved') (blankToken user l) (blankToken user l') := by
  rw [blankToken, blankToken, List.forall₂_map_left_iff, List.forall₂_map_right_iff]
  refine h.imp fun r r' hrow => ?_
  by_cases huser : r'.1 = user
  · rw [if_pos (hrow.id.trans huser), if_pos huser]
    refine ⟨hrow.id, hrow.url, hrow.username, fun _ => ⟨rfl, rfl⟩, fun t ht => ?_⟩
    have ht : saved' r'.1 = some t := ht
    rw [huser, hnone] at ht
    cases ht
  · rw [if_neg (hrow.id.symm ▸ huser), if_neg huser]
    exact hrow.other (hother r'.1 huser)

theorem RowMatches.decryptUser {r r' : UserId × RegisteredUser} (h : RowMatches lib key saved r r')
    {t : String} (ht : saved r'.1 = some t) {s : CredentialStore}
    (hkey : s.encryptionKey = some key) : JmapBridge.decryptUser lib s r = .ok r' := by
  obtain ⟨-, hdecrypt, htoken⟩ := h.token t ht
  rw [JmapBridge.decryptUser, hkey, openText, openText, h.username, hdecrypt]
  show Except.ok (r.1, RegisteredUser.mk _ _ _) = _
  rw [h.id, h.url, ← htoken]

theorem decryptUser_plain {s : CredentialStore} (hkey : s.encryptionKey = none)
    (r : UserId × RegisteredUser) : decryptUser lib s r = .ok r := by
  rw [decryptUser, hkey]
  rfl

theorem plain_token (h : List.Forall₂ (RowMatches lib key saved) l l')
    {r' : UserId × RegisteredUser} (hr : r' ∈ l') :
    r'.2.jmapToken = (saved r'.1).getD "" := by
  obtain ⟨r, -, hrow⟩ := forall₂_right_mem h r' hr
  cases ht : saved r'.1 with
  | none => exact (hrow.cleared ht).2
  | some t => exact (hrow.token t ht).2.2

theorem keyed_active {r r' : UserId × RegisteredUser} (h : RowMatches lib key saved r r') :
    isActive r = (saved r'.1).isSome := by
  rw [isActive]
  cases ht : saved r'.1 with
  | none => rw [(h.cleared ht).1]; rfl
  | some t => exact bne_iff_ne.mpr (h.token t ht).1

/-! ### One call -/

variable {s s' : CredentialStore}

/-- The calls that write are answered alike and keep the two stores beside one another. -/
def AnsweredAlike (lib : Cipher) (key : EncryptionKey) (saved : UserId → Option String)
    (a b : Except CredentialError CredentialAnswer × CredentialStore) : Prop :=
  a.1 = b.1 ∧ Beside lib key saved a.2 b.2

include hlib in
theorem Beside.saveUser (h : Beside lib key saved s s') (user : UserId) (row : RegisteredUser)
    (n n' : Nonce) :
    AnsweredAlike lib key (noteToken saved (.saveUser user row n n'))
      (CredentialCall.run lib s (.saveUser user row n n'))
      (CredentialCall.run lib s' (.saveUser user row n n')) := by
  obtain ⟨username, husername, -, hopen⟩ := encrypt_decrypt hlib key row.jmapUsername n
  obtain ⟨token, htoken, hne, hopen'⟩ := encrypt_decrypt hlib key row.jmapToken n'
  have hkeyed : JmapBridge.saveUser lib s user row n n' =
      .ok { s with users := upsertUser user ⟨username, token, row.jmapUrl⟩ s.users } := by
    rw [JmapBridge.saveUser, h.keyed, sealText, sealText, husername, htoken]
    rfl
  have hplain : JmapBridge.saveUser lib s' user row n n' =
      .ok { s' with users := upsertUser user row s'.users } := by
    rw [JmapBridge.saveUser, h.plain]
    rfl
  have hsaved : noteToken saved (.saveUser user row n n') user = some row.jmapToken := if_pos rfl
  have hother : ∀ u, u ≠ user → noteToken saved (.saveUser user row n n') u = saved u :=
    fun u hu => if_neg hu
  rw [CredentialCall.run, CredentialCall.run, hkeyed, hplain]
  refine ⟨rfl, h.keyed, h.plain, rows_upsert h.rows hother ⟨rfl, rfl, hopen, ?_, ?_⟩, ?_, h.tokens⟩
  · intro hnone
    rw [hsaved] at hnone
    cases hnone
  · intro t ht
    rw [hsaved] at ht
    obtain rfl := Option.some.inj ht
    exact ⟨hne, hopen', rfl⟩
  · intro u hu
    show ∃ r ∈ upsertUser user row s'.users, r.1 = u
    rw [upsertUser_eq]
    by_cases huser : u = user
    · subst huser
      by_cases hany : s'.users.any (·.1 == u) = true
      · obtain ⟨r, hr, hru⟩ := List.any_eq_true.mp hany
        refine ⟨(u, row), List.mem_append_left _ (List.mem_map.mpr ⟨r, hr, ?_⟩), rfl⟩
        exact if_pos (eq_of_beq hru)
      · rw [if_neg hany]
        exact ⟨(u, row), List.mem_append_right _ (List.mem_singleton.mpr rfl), rfl⟩
    · rw [hother u huser] at hu
      obtain ⟨r, hr, hru⟩ := h.known u hu
      refine ⟨r, List.mem_append_left _ (List.mem_map.mpr ⟨r, hr, ?_⟩), hru⟩
      exact if_neg (hru ▸ huser)

theorem Beside.clear (h : Beside lib key saved s s') (user : UserId) :
    AnsweredAlike lib key (noteToken saved (.clearUserCredentials user))
      (CredentialCall.run lib s (.clearUserCredentials user))
      (CredentialCall.run lib s' (.clearUserCredentials user)) := by
  have hsaved : noteToken saved (.clearUserCredentials user) user = none := if_pos rfl
  have hother : ∀ u, u ≠ user → noteToken saved (.clearUserCredentials user) u = saved u :=
    fun u hu => if_neg hu
  refine ⟨rfl, h.keyed, h.plain, rows_blank h.rows hother hsaved, ?_, h.tokens⟩
  intro u hu
  have huser : u ≠ user := by
    rintro rfl
    exact hu hsaved
  rw [hother u huser] at hu
  obtain ⟨r, hr, hru⟩ := h.known u hu
  exact ⟨r, List.mem_map.mpr ⟨r, hr, if_neg (hru ▸ huser)⟩, hru⟩

include hlib in
theorem Beside.setToken (h : Beside lib key saved s s') (user : UserId) (token : String)
    (n : Nonce) :
    AnsweredAlike lib key saved (CredentialCall.run lib s (.setMatrixPuppetToken user token n))
      (CredentialCall.run lib s' (.setMatrixPuppetToken user token n)) := by
  obtain ⟨stored, hstored, -, hopen⟩ := encrypt_decrypt hlib key token n
  have hknown : s.hasUser user = s'.hasUser user := any_rows h.rows user
  have hkeyed : JmapBridge.setMatrixPuppetToken lib s user token n = if s.hasUser user then
      .ok { s with puppetTokens := fun u => if u = user then some stored else s.puppetTokens u }
      else .error .foreignKey := by
    rw [JmapBridge.setMatrixPuppetToken, h.keyed, sealText, hstored]
    rfl
  have hplain : JmapBridge.setMatrixPuppetToken lib s' user token n = if s'.hasUser user then
      .ok { s' with puppetTokens := fun u => if u = user then some token else s'.puppetTokens u }
      else .error .foreignKey := by
    rw [JmapBridge.setMatrixPuppetToken, h.plain]
    rfl
  rw [CredentialCall.run, CredentialCall.run, hkeyed, hplain, hknown]
  split
  · refine ⟨rfl, h.keyed, h.plain, h.rows, h.known, fun u => ?_⟩
    show TokenMatches lib key (if u = user then some stored else s.puppetTokens u)
      (if u = user then some token else s'.puppetTokens u)
    split
    · exact hopen
    · exact h.tokens u
  · exact ⟨rfl, h⟩

theorem Beside.getToken (h : Beside lib key saved s s') (user : UserId) :
    getMatrixPuppetToken lib s user = getMatrixPuppetToken lib s' user := by
  have hmatch := h.tokens user
  rw [getMatrixPuppetToken, getMatrixPuppetToken, h.keyed, h.plain]
  cases hstored : s.puppetTokens user with
  | none =>
    cases htoken : s'.puppetTokens user with
    | none => rfl
    | some t =>
      rw [hstored, htoken] at hmatch
      exact hmatch.elim
  | some stored =>
    cases htoken : s'.puppetTokens user with
    | none =>
      rw [hstored, htoken] at hmatch
      exact hmatch.elim
    | some t =>
      rw [hstored, htoken] at hmatch
      have hmatch : decrypt lib stored key = .ok t := hmatch
      dsimp only
      rw [openText, openText, hmatch]
      rfl

theorem find_saved (h : List.Forall₂ (RowMatches lib key saved) l l') {user : UserId} {t : String}
    (ht : saved user = some t) (hknown : ∃ r ∈ l', r.1 = user) :
    ∃ r r', RowMatches lib key saved r r' ∧ r'.1 = user ∧
      (l.find? fun r => r.1 == user && isActive r) = some r ∧
      (l'.find? fun r => r.1 == user && isActive r) = if t = "" then none else some r' := by
  induction h with
  | nil =>
    obtain ⟨r, hr, -⟩ := hknown
    cases hr
  | @cons r r' l l' hrow hrows ih =>
    have hkeyed := keyed_active hrow
    by_cases huser : r'.1 = user
    · subst huser
      refine ⟨r, r', hrow, rfl, ?_, ?_⟩
      · rw [List.find?_cons_of_pos]
        rw [hkeyed, ht, hrow.id]
        simp
      · by_cases hempty : t = ""
        · rw [if_pos hempty, List.find?_eq_none]
          intro x hx
          have htoken := plain_token (.cons hrow hrows) hx
          rw [Bool.and_eq_true, not_and]
          intro hid
          rw [eq_of_beq hid, ht, hempty] at htoken
          rw [isActive, htoken]
          decide
        · rw [if_neg hempty, List.find?_cons_of_pos]
          have htoken := plain_token (.cons hrow hrows) List.mem_cons_self
          rw [ht] at htoken
          rw [isActive, htoken]
          simpa using hempty
    · have hrest : ∃ x ∈ l', x.1 = user := by
        obtain ⟨x, hx, hxu⟩ := hknown
        rcases List.mem_cons.mp hx with rfl | hx
        · exact absurd hxu huser
        · exact ⟨x, hx, hxu⟩
      obtain ⟨x, x', hmatch, hid, hfind, hfind'⟩ := ih hrest
      refine ⟨x, x', hmatch, hid, ?_, ?_⟩
      · rw [List.find?_cons_of_neg, hfind]
        simpa [hrow.id] using fun heq => absurd heq huser
      · rw [List.find?_cons_of_neg, hfind']
        simpa using fun heq => absurd heq huser

theorem find_unsaved (h : List.Forall₂ (RowMatches lib key saved) l l') {user : UserId}
    (hnone : saved user = none) :
    (l.find? fun r => r.1 == user && isActive r) = none ∧
      (l'.find? fun r => r.1 == user && isActive r) = none := by
  induction h with
  | nil => exact ⟨rfl, rfl⟩
  | @cons r r' l l' hrow hrows ih =>
    have hinactive : r'.1 = user → isActive r = false ∧ isActive r' = false := by
      rintro rfl
      obtain ⟨htoken, htoken'⟩ := hrow.cleared hnone
      rw [isActive, isActive, htoken, htoken']
      exact ⟨rfl, rfl⟩
    rw [List.find?_cons_of_neg, List.find?_cons_of_neg]
    · exact ih
    · simpa using fun heq => (hinactive heq).2
    · rw [hrow.id]
      simpa using fun heq => (hinactive heq).1

theorem Beside.getUser (h : Beside lib key saved s s') (user : UserId) :
    JmapBridge.getUser lib s user = JmapBridge.getUser lib s' user ↔ saved user ≠ some "" := by
  rw [JmapBridge.getUser, JmapBridge.getUser]
  cases ht : saved user with
  | none =>
    obtain ⟨hkeyed, hplain⟩ := find_unsaved h.rows ht
    rw [hkeyed, hplain]
    simp
  | some t =>
    obtain ⟨r, r', hrow, hid, hkeyed, hplain⟩ :=
      find_saved h.rows ht (h.known user (by rw [ht]; exact Option.some_ne_none t))
    have hread : decryptUser lib s r = .ok r' := hrow.decryptUser (hid ▸ ht) h.keyed
    rw [hkeyed, hplain]
    dsimp only
    rw [hread]
    by_cases hempty : t = ""
    · rw [if_pos hempty, hempty]
      simp [Except.map]
    · rw [if_neg hempty]
      dsimp only
      rw [decryptUser_plain h.plain]
      simpa using hempty

theorem listed_keyed (h : List.Forall₂ (RowMatches lib key saved) l l')
    (hkey : s.encryptionKey = some key) :
    (l.filter isActive).mapM (decryptUser lib s) =
      .ok (l'.filter fun r => (saved r.1).isSome) := by
  induction h with
  | nil => rfl
  | @cons r r' l l' hrow _ ih =>
    have hkeyed := keyed_active hrow
    cases ht : saved r'.1 with
    | none =>
      rw [ht] at hkeyed
      rw [List.filter_cons_of_neg (by simp [hkeyed]), List.filter_cons_of_neg (by simp [ht]), ih]
    | some t =>
      rw [ht] at hkeyed
      rw [List.filter_cons_of_pos (by simp [hkeyed]), List.filter_cons_of_pos (by simp [ht]),
        List.mapM_cons, hrow.decryptUser ht hkey, ih]
      rfl

theorem listed_plain (hkey : s'.encryptionKey = none) (rows : List (UserId × RegisteredUser)) :
    rows.mapM (decryptUser lib s') = .ok rows := by
  induction rows with
  | nil => rfl
  | cons r rows ih =>
    rw [List.mapM_cons, decryptUser_plain hkey, ih]
    rfl

theorem Beside.getAllUsers (h : Beside lib key saved s s') :
    JmapBridge.getAllUsers lib s = JmapBridge.getAllUsers lib s' ↔ ∀ u, saved u ≠ some "" := by
  rw [JmapBridge.getAllUsers, JmapBridge.getAllUsers, listed_keyed h.rows h.keyed,
    listed_plain h.plain, Except.ok.injEq]
  constructor
  · intro hsame u hblank
    obtain ⟨r, hr, rfl⟩ := h.known u (by rw [hblank]; exact Option.some_ne_none _)
    have hlisted : r ∈ s'.users.filter fun r => (saved r.1).isSome :=
      List.mem_filter.mpr ⟨hr, by rw [hblank]; rfl⟩
    rw [hsame] at hlisted
    have hactive := (List.mem_filter.mp hlisted).2
    rw [isActive, plain_token h.rows hr, hblank] at hactive
    cases hactive
  · intro hnone
    refine List.filter_congr fun r hr => ?_
    rw [isActive, plain_token h.rows hr]
    cases ht : saved r.1 with
    | none => rfl
    | some t =>
      have hne : t ≠ "" := by
        rintro rfl
        exact hnone r.1 ht
      exact (bne_iff_ne.mpr hne).symm

theorem map_injective {ε α β : Type} {f : α → β} (hf : ∀ a b, f a = f b → a = b)
    {x y : Except ε α} : x.map f = y.map f ↔ x = y := by
  refine ⟨fun h => ?_, congrArg _⟩
  cases x with
  | error e =>
    cases y with
    | error e' => exact congrArg Except.error (Except.error.inj h)
    | ok b => cases h
  | ok a =>
    cases y with
    | error e' => cases h
    | ok b => exact congrArg Except.ok (hf a b (Except.ok.inj h))

include hlib in
/-- The two stores answer a call alike unless it reads a user saved with an empty token,
and stay beside one another. -/
theorem Beside.step (h : Beside lib key saved s s') (c : CredentialCall) :
    ((c.run lib s).1 = (c.run lib s').1 ↔ ∀ u, c.Reads u → saved u ≠ some "") ∧
      Beside lib key (noteToken saved c) (c.run lib s).2 (c.run lib s').2 := by
  have hfree {c : CredentialCall} (hreads : ∀ u, ¬ c.Reads u)
      (halike : AnsweredAlike lib key (noteToken saved c) (c.run lib s) (c.run lib s')) :
      ((c.run lib s).1 = (c.run lib s').1 ↔ ∀ u, c.Reads u → saved u ≠ some "") ∧
        Beside lib key (noteToken saved c) (c.run lib s).2 (c.run lib s').2 :=
    ⟨⟨fun _ u hu => absurd hu (hreads u), fun _ => halike.1⟩, halike.2⟩
  cases c with
  | saveUser user row n n' => exact hfree (fun _ => id) (h.saveUser hlib user row n n')
  | clearUserCredentials user => exact hfree (fun _ => id) (h.clear user)
  | setMatrixPuppetToken user token n => exact hfree (fun _ => id) (h.setToken hlib user token n)
  | getMatrixPuppetToken user =>
    refine hfree (fun _ => id) ⟨?_, h⟩
    show Except.map _ _ = Except.map _ _
    rw [h.getToken user]
  | getUser user =>
    refine ⟨?_, h⟩
    show Except.map _ _ = Except.map _ _ ↔ _
    rw [map_injective (fun _ _ => CredentialAnswer.user.inj), h.getUser user]
    exact ⟨fun hne u hu => hu ▸ hne, fun hall => hall user rfl⟩
  | getAllUsers =>
    refine ⟨?_, h⟩
    show Except.map _ _ = Except.map _ _ ↔ _
    rw [map_injective (fun _ _ => CredentialAnswer.users.inj), h.getAllUsers]
    exact ⟨fun hne u _ => hne u, fun hall u => hall u trivial⟩

/-! ### A run -/

include hlib in
theorem answers_iff (calls : List CredentialCall) {before : List CredentialCall}
    (h : Beside lib key (savedToken before) s s') :
    answers lib calls s = answers lib calls s' ↔
      ∀ p c q, calls = p ++ c :: q → ∀ u, c.Reads u → savedToken (before ++ p) u ≠ some "" := by
  induction calls generalizing before s s' with
  | nil => exact ⟨fun _ p c q hsplit => absurd hsplit (by simp), fun _ => rfl⟩
  | cons c calls ih =>
    obtain ⟨halike, hnext⟩ := h.step hlib c
    have hnote : noteToken (savedToken before) c = savedToken (before ++ [c]) := by
      rw [savedToken, savedToken, List.foldl_append]
      rfl
    rw [hnote] at hnext
    rw [answers, answers, List.cons.injEq, halike, ih hnext]
    constructor
    · rintro ⟨hfirst, hrest⟩ p d q hsplit
      rcases List.cons_eq_append_iff.mp hsplit with ⟨rfl, heq⟩ | ⟨p, rfl, heq⟩
      · obtain ⟨rfl, -⟩ := List.cons.inj heq
        rwa [List.append_nil]
      · have hlater := hrest p d q heq
        rwa [List.append_assoc] at hlater
    · intro hall
      refine ⟨?_, fun p d q hsplit => ?_⟩
      · have hfirst := hall [] c calls rfl
        rwa [List.append_nil] at hfirst
      · have hlater := hall (c :: p) d q (by rw [hsplit]; rfl)
        rwa [List.append_assoc]

theorem beside_start (lib : Cipher) (key : EncryptionKey) :
    Beside lib key (savedToken []) ⟨some key, [], fun _ => none⟩ ⟨none, [], fun _ => none⟩ :=
  ⟨rfl, rfl, .nil, fun _ hu => absurd rfl hu, fun _ => trivial⟩

include hlib in
/-- Encryption does not show exactly when no user who was saved with an empty token is read. -/
theorem transparent_iff (key : EncryptionKey) (calls : List CredentialCall) :
    Transparent lib key calls ↔ NoBlankRead calls :=
  answers_iff hlib calls (beside_start lib key)

end

/-- A cipher that adds a tag and hides nothing, written byte by byte as a character. -/
def tagCipher : Cipher where
  encrypt _ _ plaintext := some (plaintext ++ List.replicate 16 0)
  decrypt _ _ ciphertext :=
    if ciphertext.drop (ciphertext.length - 16) = List.replicate 16 0 then
      some (ciphertext.take (ciphertext.length - 16))
    else none
  encode b := String.ofList (b.map Char.ofUInt8)
  decode s :=
    if s.toList.all fun c => c.toNat < 256 then some (s.toList.map Char.toUInt8) else none

theorem tagCipher_sound : tagCipher.Sound := by
  have hlist : ∀ b, (tagCipher.encode b).toList = b.map Char.ofUInt8 := fun _ =>
    String.toList_ofList
  constructor
  · intro key nonce plaintext
    refine ⟨_, rfl, ?_⟩
    show (if _ then _ else _) = _
    have hlen : (plaintext ++ List.replicate 16 (0 : UInt8)).length - 16 = plaintext.length := by
      simp
    rw [hlen, List.drop_left, List.take_left, if_pos rfl]
  · intro b
    show (if _ then _ else _) = _
    rw [hlist, if_pos, List.map_map]
    · have hsame : ∀ x ∈ b, (Char.toUInt8 ∘ Char.ofUInt8) x = id x := fun x _ =>
        UInt8.toUInt8_toUInt32 x
      rw [List.map_congr_left hsame, List.map_id]
    · rw [List.all_map, List.all_eq_true]
      exact fun x _ => decide_eq_true x.toNat_lt
  · intro b hne hempty
    have hnil := congrArg String.toList hempty
    rw [hlist] at hnil
    exact hne (List.map_eq_nil_iff.mp hnil)

def zeroKey : EncryptionKey := Vector.replicate 32 0

def zeroNonce : Nonce := ⟨List.replicate 12 0, rfl⟩

def aliceRow (token : String) : RegisteredUser :=
  ⟨"alice@example.com", token, "https://mail.example.com"⟩

theorem transparent_alice :
    Transparent tagCipher zeroKey
      [.saveUser "@alice:example.com" (aliceRow "secret") zeroNonce zeroNonce, .getAllUsers] := by
  refine (transparent_iff tagCipher_sound _ _).mpr fun p c q hsplit u hreads => ?_
  rcases List.cons_eq_append_iff.mp hsplit with ⟨rfl, heq⟩ | ⟨p, rfl, heq⟩
  · obtain ⟨rfl, -⟩ := List.cons.inj heq
    exact hreads.elim
  · rcases List.cons_eq_append_iff.mp heq with ⟨rfl, -⟩ | ⟨p, -, heq⟩
    · show (if u = "@alice:example.com" then some "secret" else none) ≠ some ""
      split
      · decide
      · exact Option.some_ne_none _ ∘ Eq.symm
    · simp at heq

/-- A user who is saved with an empty token is logged in with a key and logged out without. -/
theorem empty_token_shows :
    ¬ Transparent tagCipher zeroKey
      [.saveUser "@alice:example.com" (aliceRow "") zeroNonce zeroNonce,
        .getUser "@alice:example.com"] := by
  intro h
  have hread := (answers_iff tagCipher_sound _ (beside_start tagCipher zeroKey)).mp h
    [_] (.getUser "@alice:example.com") [] rfl "@alice:example.com" rfl
  exact hread rfl

end JmapBridge
