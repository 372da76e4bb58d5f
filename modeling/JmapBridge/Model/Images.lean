import JmapBridge.Model.Rooms

/-! Loading the images of one email on request, and editing its event to show them. -/

namespace JmapBridge

open Effect

def maxImages : Nat := 20

/-- The images that could be fetched, with the content URI each was uploaded to. -/
def fetchImages (ghost : UserId) : List String → Task (List (String × String))
  | [] => pure []
  | url :: urls => do
    let fetched ← result (onMatrix (.fetchAndUpload ghost url))
    let rest ← fetchImages ghost urls
    pure ((fetched.toOption.map fun mxc => (url, mxc)).toList ++ rest)

def inlineEmailImages (cfg : Config) (room : RoomId) (target : EventId) (ghost : UserId)
    (html plain : String) : Bridge Unit := do
  let loaded ← Act.lift (fetchImages ghost ((cfg.remoteImages html).take maxImages))
  if loaded.isEmpty then pure ()
  else do
    let _ ← sendAsGhostJoining room ghost (.edit target plain (cfg.inlineImages html loaded)) none

/-- Fetch the email again; one without an HTML body has nothing to load. -/
def loadImagesOf (cfg : Config) (account : Account) (email : EmailId) (room : RoomId)
    (target : EventId) (ghostEmail : String) : Bridge Unit := do
  let bodies ← onJmap account (.getBodies email)
  match bodies.head? with
  | some (some html, plain) =>
    inlineEmailImages cfg room target (cfg.ghostUserId ghostEmail) html plain
  | _ => pure ()

def handleLoadImages (cfg : Config) (sender : UserId) (room : RoomId) (target : EventId) :
    Bridge Unit := do
  if (cfg.level sender).isNone then pure ()
  else do
    match ← onStore (.getEmailIdFromEventId target) with
    | none => pure ()
    | some email => do
      match ← onStore (.getGhostEmailByRoom room) with
      | none => pure ()
      | some ghostEmail => do
        match ← Act.lift (onTask (.getClient sender)) with
        | none => pure ()
        | some account => loadImagesOf cfg account email room target ghostEmail

end JmapBridge
