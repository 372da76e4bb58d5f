import JmapBridge.Model.Content
import JmapBridge.Rust.Lines
import Mathlib.Data.List.AList

/-! Who may use the bridge: a map from Matrix ids, servers and `*` to levels, read from the
operator's `key=level` specs. -/

namespace JmapBridge

open Rust Rust.Str

inductive PermissionError where
  | malformedSpec (spec : Str)
  | unknownLevel (level : Str)
  | emptyKey (spec : Str)
deriving DecidableEq, Repr

/-- `Level::from_str`. -/
def Level.parse (s : Str) : Except PermissionError Level :=
  let level := toAsciiLowercase (Str.trim s)
  if level = "user".toList then .ok .user
  else if level = "admin".toList then .ok .admin
  else .error (.unknownLevel level)

abbrev LevelMap := AList fun _ : Str => Level

structure Permissions where
  map : LevelMap

/-- One round of the loop of `from_specs`. -/
def Permissions.addSpec (map : LevelMap) (spec : Str) : Except PermissionError LevelMap :=
  match splitOnce '=' spec with
  | none => .error (.malformedSpec spec)
  | some (key, level) =>
    let key := Str.trim key
    if key.isEmpty then .error (.emptyKey spec)
    else (Level.parse level).map fun level => map.insert key level

def Permissions.fromSpecs (specs : List Str) (bridgeDomain : Str) :
    Except PermissionError Permissions :=
  (specs.foldlM Permissions.addSpec ∅).map fun map =>
    if map.entries.isEmpty then ⟨map.insert bridgeDomain .user⟩ else ⟨map⟩

/-- The id itself, its homeserver and everyone, in that order; `none` is denied. -/
def Permissions.levelFor (p : Permissions) (mxid : Str) : Option Level :=
  match p.map.lookup mxid with
  | some level => some level
  | none =>
    match (splitOnce ':' mxid).bind fun (_, domain) => p.map.lookup domain with
    | some level => some level
    | none => p.map.lookup "*".toList

end JmapBridge
