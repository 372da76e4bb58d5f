import JmapBridge.Model.Store
import JmapBridge.Rust.Utf8

/-! Credentials at rest: the users table and the puppet tokens of a store that is opened with
an encryption key or without one. -/

namespace JmapBridge

open Rust Rust.Str

/-! ### Encryption -/

abbrev EncryptionKey := Vector UInt8 32

def nonceLen : Nat := 12

/-- The random bytes of one encryption. -/
structure Nonce where
  bytes : List UInt8
  length : bytes.length = nonceLen

/-- AES-256-GCM and base64. -/
structure Cipher where
  encrypt : EncryptionKey → List UInt8 → List UInt8 → Option (List UInt8)
  decrypt : EncryptionKey → List UInt8 → List UInt8 → Option (List UInt8)
  encode : List UInt8 → String
  decode : String → Option (List UInt8)

inductive CryptoError where
  | encryption
  | base64
  | tooShort (got : Nat)
  | decryption
  | utf8
deriving DecidableEq, Repr

/-- `String::from_utf8`. -/
def fromUtf8 (b : List UInt8) : Option Str := b.toByteArray.utf8Decode?.map (·.toList)

def encrypt (lib : Cipher) (plaintext : String) (key : EncryptionKey) (nonce : Nonce) :
    Except CryptoError String :=
  match lib.encrypt key nonce.bytes (bytes plaintext.toList) with
  | none => .error .encryption
  | some ciphertext => .ok (lib.encode (nonce.bytes ++ ciphertext))

def decrypt (lib : Cipher) (encoded : String) (key : EncryptionKey) : Except CryptoError String :=
  match lib.decode encoded with
  | none => .error .base64
  | some combined =>
    if combined.length < nonceLen then .error (.tooShort combined.length)
    else
      match lib.decrypt key (combined.take nonceLen) (combined.drop nonceLen) with
      | none => .error .decryption
      | some plaintext =>
        match fromUtf8 plaintext with
        | none => .error .utf8
        | some text => .ok (String.ofList text)

/-! ### The store -/

inductive CredentialError where
  | context (text : String) (cause : CryptoError)
  | foreignKey
deriving DecidableEq, Repr

/-- `.context(text)`. -/
def withContext {α : Type} (text : String) : Except CryptoError α → Except CredentialError α :=
  Except.mapError (.context text)

/-- The rows of `users`, in the order of their insertion, and of `jmap_state` under the
puppet token's key. -/
structure CredentialStore where
  encryptionKey : Option EncryptionKey
  users : List (UserId × RegisteredUser) := []
  puppetTokens : UserId → Option String := fun _ => none

def CredentialStore.hasUser (s : CredentialStore) (user : UserId) : Bool :=
  s.users.any (·.1 == user)

/-- `INSERT … ON CONFLICT(matrix_user_id) DO UPDATE`. -/
def upsertUser (user : UserId) (row : RegisteredUser) (rows : List (UserId × RegisteredUser)) :
    List (UserId × RegisteredUser) :=
  if rows.any (·.1 == user) then rows.map fun r => if r.1 = user then (user, row) else r
  else rows ++ [(user, row)]

/-- `UPDATE users SET jmap_token = ''`. -/
def blankToken (user : UserId) (rows : List (UserId × RegisteredUser)) :
    List (UserId × RegisteredUser) :=
  rows.map fun r => if r.1 = user then (r.1, { r.2 with jmapToken := "" }) else r

/-- `WHERE jmap_token != ''`. -/
def isActive (r : UserId × RegisteredUser) : Bool := r.2.jmapToken != ""

section

variable (lib : Cipher)

def sealText (key : Option EncryptionKey) (context text : String) (nonce : Nonce) :
    Except CredentialError String :=
  match key with
  | some key => withContext context (encrypt lib text key nonce)
  | none => .ok text

def openText (key : Option EncryptionKey) (context stored : String) :
    Except CredentialError String :=
  match key with
  | some key => withContext context (decrypt lib stored key)
  | none => .ok stored

def saveUser (s : CredentialStore) (user : UserId) (row : RegisteredUser)
    (usernameNonce tokenNonce : Nonce) : Except CredentialError CredentialStore := do
  let username ← sealText lib s.encryptionKey "Failed to encrypt username" row.jmapUsername
    usernameNonce
  let token ← sealText lib s.encryptionKey "Failed to encrypt token" row.jmapToken tokenNonce
  return { s with users := upsertUser user ⟨username, token, row.jmapUrl⟩ s.users }

def clearUserCredentials (s : CredentialStore) (user : UserId) : CredentialStore :=
  { s with users := blankToken user s.users }

def decryptUser (s : CredentialStore) (r : UserId × RegisteredUser) :
    Except CredentialError (UserId × RegisteredUser) := do
  let username ← openText lib s.encryptionKey "Failed to decrypt username" r.2.jmapUsername
  let token ← openText lib s.encryptionKey "Failed to decrypt token" r.2.jmapToken
  return (r.1, ⟨username, token, r.2.jmapUrl⟩)

def getUser (s : CredentialStore) (user : UserId) :
    Except CredentialError (Option (UserId × RegisteredUser)) :=
  match s.users.find? fun r => r.1 == user && isActive r with
  | none => .ok none
  | some r => (decryptUser lib s r).map some

/-- The first row that does not decrypt is the result of all. -/
def getAllUsers (s : CredentialStore) : Except CredentialError (List (UserId × RegisteredUser)) :=
  (s.users.filter isActive).mapM (decryptUser lib s)

def setMatrixPuppetToken (s : CredentialStore) (user : UserId) (token : String) (nonce : Nonce) :
    Except CredentialError CredentialStore := do
  let stored ← sealText lib s.encryptionKey "Failed to encrypt puppet token" token nonce
  if s.hasUser user then
    return { s with puppetTokens := fun u => if u = user then some stored else s.puppetTokens u }
  else
    .error .foreignKey

def getMatrixPuppetToken (s : CredentialStore) (user : UserId) :
    Except CredentialError (Option String) :=
  match s.puppetTokens user with
  | none => .ok none
  | some stored =>
    (openText lib s.encryptionKey "Failed to decrypt puppet token" stored).map some

end

end JmapBridge
