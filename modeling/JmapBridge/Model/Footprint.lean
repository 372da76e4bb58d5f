import JmapBridge.Model.Sync

/-! Which commands the programs of the inbound side can give. A property that no
inbound command touches is kept by all of them at once. -/

namespace JmapBridge

open Effect

variable {α β γ σ : Type} {φ ψ : Cmd → Prop}

def Op.cmd : Op β → Cmd
  | .mk c => c

/-- Every command the program can reach satisfies `φ`. -/
def Does (φ : Cmd → Prop) (p : Prog Op α) : Prop := p.Only fun _ o => φ o.cmd

namespace Does

theorem store {c : StoreCmd} (h : φ (.store c)) : Does φ (onStore c) := ⟨h, fun _ => trivial⟩

theorem matrix {c : MatrixCmd} (h : φ (.matrix c)) : Does φ (onMatrix c) := ⟨h, fun _ => trivial⟩

theorem jmap {account : Account} {c : JmapCmd} (h : φ (.jmap account c)) :
    Does φ (onJmap account c) := ⟨h, fun _ => trivial⟩

theorem task {c : TaskCmd} (h : φ (.task c)) : Does φ (onTask c) := ⟨h, fun _ => trivial⟩

theorem pure {a : α} : Does φ (.pure a : Task α) := trivial

theorem ok {a : α} : Does φ (Act.ok a : Bridge α) := trivial

theorem fail {e : Err} : Does φ (Act.fail e : Bridge α) := trivial

theorem bind {p : Task α} {f : α → Task γ} (hp : Does φ p) (hf : ∀ a, Does φ (f a)) :
    Does φ (p.bind f) := Prog.Only.bind hp hf

theorem andThen {x : Bridge α} {f : α → Bridge γ} (hx : Does φ x) (hf : ∀ a, Does φ (f a)) :
    Does φ (x.andThen f) := Prog.only_closed.andThen hx hf

theorem lift {p : Task α} (hp : Does φ p) : Does φ (Act.lift p : Bridge α) :=
  Prog.only_closed.lift hp

theorem attempt {x : Bridge α} (hx : Does φ x) : Does φ (Act.attempt x) :=
  Prog.only_closed.attempt hx

theorem bestEffort {x : Bridge α} (hx : Does φ x) : Does φ (bestEffort x) :=
  bind hx fun _ => trivial

theorem result {x : Bridge α} (hx : Does φ x) : Does φ (result x) := hx

theorem letSome {x : Bridge (Option α)} {k : α → Task Unit} (hx : Does φ x)
    (hk : ∀ a, Does φ (k a)) : Does φ (letSome x k) := by
  refine bind hx fun r => ?_
  rcases r with e | (_ | a)
  · trivial
  · trivial
  · exact hk a

theorem ofOption {e : Err} {o : Option α} : Does φ (Act.ofOption e o : Bridge α) :=
  Prog.only_closed.ofOption

theorem mapError {f : Err → Err} {x : Bridge α} (hx : Does φ x) : Does φ (Act.mapError f x) :=
  Prog.only_closed.mapError hx

theorem loop {body : σ → Bridge (σ ⊕ α)} {s : σ} (h : ∀ s, Does φ (body s)) :
    Does φ (Act.loop body s) := Prog.only_closed.actLoop h

theorem forEach {f : β → Bridge Unit} (xs : List β) (h : ∀ x, Does φ (f x)) :
    Does φ (Act.forEach f xs) := Prog.only_closed.actForEach xs fun x _ => h x

theorem guarded {key : LockKey} {x : Bridge α} (hd : φ (.task (.dropGuard key))) (hx : Does φ x) :
    Does φ (guarded key x) := bind hx fun _ => bind (task hd) fun _ => trivial

theorem instrument {email : Option EmailId} {x : Bridge α} (he : φ (.task (.enter email)))
    (hl : φ (.task (.leave email))) (hx : Does φ x) : Does φ (instrument email x) :=
  bind (task he) fun _ => bind hx fun _ => bind (task hl) fun _ => trivial

theorem mono {p : Prog Op α} (hp : Does φ p) (h : ∀ c, φ c → ψ c) : Does ψ p :=
  Prog.Only.mono (fun _ _ => h _) hp

end Does

/-- The commands an email's attachments give rise to. -/
inductive AttachmentCmd (p : Poller) (room : RoomId) : Cmd → Prop where
  | getUser : AttachmentCmd p room (.store (.getUser p.user))
  | latest (t : ThreadId) (e : EventId) :
    AttachmentCmd p room (.store (.updateThreadLatestEvent t e))
  | download (b n u t : String) : AttachmentCmd p room (.matrix (.downloadBlob b n u t))
  | upload (s : UserId) (m n : String) : AttachmentCmd p room (.matrix (.uploadMediaStream s m n))
  | invite (s : UserId) : AttachmentCmd p room (.matrix (.inviteToRoom room s))
  | join (s : UserId) : AttachmentCmd p room (.matrix (.joinRoomAs room s))
  | send (s : UserId) (x m n : String) (ts : Option Nat) :
    AttachmentCmd p room (.matrix (.sendAsGhost room s (.file x n m) ts))

theorem sendAsGhostJoining_does {room : RoomId} {sender : UserId} {content : Content}
    {timestamp : Option Nat} (hs : φ (.matrix (.sendAsGhost room sender content timestamp)))
    (hi : φ (.matrix (.inviteToRoom room sender))) (hj : φ (.matrix (.joinRoomAs room sender))) :
    Does φ (sendAsGhostJoining room sender content timestamp) := by
  refine .andThen (.attempt (.matrix hs)) fun r => ?_
  split
  · exact .ok
  · exact .andThen (.bestEffort (.matrix hi)) fun _ => .andThen (.matrix hj) fun _ => .matrix hs
  · exact .fail

theorem bridgeAttachment_does {p : Poller} {part : EmailBodyPart} {room : RoomId} {sender : UserId}
    {timestamp : Option Nat} :
    Does (AttachmentCmd p room) (bridgeAttachment p part room sender timestamp) := by
  refine .andThen .ofOption fun _ => ?_
  split
  · exact .fail
  · exact .andThen (.store .getUser) fun _ => .andThen .ofOption fun _ =>
      .andThen (.matrix (.download ..)) fun _ => .andThen (.matrix (.upload ..)) fun _ =>
        sendAsGhostJoining_does (.send ..) (.invite _) (.join _)

theorem handleAttachments_does {p : Poller} {email : Email} {room : RoomId} {sender : UserId}
    {timestamp : Option Nat} :
    Does (AttachmentCmd p room) (handleAttachments p email room sender timestamp) := by
  refine .forEach _ fun part => .andThen (.attempt bridgeAttachment_does) fun r => ?_
  split
  · exact .bestEffort (.store (.latest ..))
  · exact .ok

/-- The commands that mirror the read state of `email` for `user`. -/
inductive ReadStateCmd (user : UserId) (email : Option EmailId) : Cmd → Prop where
  | synced (e : EmailId) (h : e ∈ email) :
    ReadStateCmd user email (.store (.getJmapState user (.readSynced e)))
  | token : ReadStateCmd user email (.store (.getJmapState user .matrixPuppetToken))
  | save (e : EmailId) (v : String) (h : e ∈ email) :
    ReadStateCmd user email (.store (.saveJmapState user (.readSynced e) v))
  | delete (e : EmailId) (h : e ∈ email) :
    ReadStateCmd user email (.store (.deleteJmapState user (.readSynced e)))
  | thread (t : ThreadId) : ReadStateCmd user email (.store (.getThreadInfo t))
  | event (e : EmailId) : ReadStateCmd user email (.store (.getEventIdByEmail e))
  | receipt (r : RoomId) (e : EventId) (t : String) :
    ReadStateCmd user email (.matrix (.sendReadReceipt r e t))
  | unread (r : RoomId) (b : Bool) (t : String) :
    ReadStateCmd user email (.matrix (.setMarkedUnread user r b t))

theorem mirrorSeen_does {p : Poller} {emailId : EmailId} {room : RoomId} {token : String} :
    Does (ReadStateCmd p.user (some emailId)) (mirrorSeen p emailId room token) := by
  refine .letSome (.store (.event _)) fun event =>
    .bind (.result (.matrix (.receipt ..))) fun r => ?_
  split
  · exact .pure
  · exact .bind (.result (.matrix (.unread ..))) fun _ =>
      .bind (.result (.store (.save _ _ rfl))) fun _ => .pure

theorem mirrorUnseen_does {p : Poller} {emailId : EmailId} {room : RoomId} {token : String} :
    Does (ReadStateCmd p.user (some emailId)) (mirrorUnseen p emailId room token) := by
  refine .bind (.result (.matrix (.unread ..))) fun r => ?_
  split
  · exact .pure
  · exact .bind (.result (.store (.delete _ rfl))) fun _ => .pure

theorem syncReadState_does {p : Poller} {email : Email} :
    Does (ReadStateCmd p.user email.id) (syncReadState p email) := by
  rw [syncReadState]
  cases email.id with
  | none => exact .pure
  | some emailId =>
    refine .bind (.result (.store (.synced _ rfl))) fun synced => ?_
    split
    · exact .pure
    · refine .letSome (.store .token) fun token => ?_
      split
      · exact .pure
      · refine .letSome (.store (.thread _)) fun row => ?_
        split
        · exact mirrorSeen_does
        · exact mirrorUnseen_does

/-- The commands that make the email space of `user` and file a room in it. -/
inductive SpaceCmd (user : UserId) : Cmd → Prop where
  | ownEmail : SpaceCmd user (.store (.getJmapState user .userEmail))
  | space : SpaceCmd user (.store (.getJmapState user .emailSpaceRoom))
  | saveSpace (v : String) : SpaceCmd user (.store (.saveJmapState user .emailSpaceRoom v))
  | lock : SpaceCmd user (.store (.tryAcquireRoomCreationLock (.emailSpace user)))
  | unlock : SpaceCmd user (.task (.dropGuard (.emailSpace user)))
  | sleep (n : Nat) : SpaceCmd user (.task (.sleep n))
  | botAvatar (key : String) : SpaceCmd user (.store (.getBridgeState key))
  | createSpace (n t : String) : SpaceCmd user (.matrix (.createSpace n t user))
  | avatar (r : RoomId) (n : String) : SpaceCmd user (.matrix (.setRoomAvatar r n))
  | state (r : RoomId) (t k : String) : SpaceCmd user (.matrix (.putState r t k))

/-- The commands that make the room of a contact for `user` and file it in the email space. -/
inductive RoomCmd (user : UserId) : Cmd → Prop where
  | ownEmail : RoomCmd user (.store (.getJmapState user .userEmail))
  | space : RoomCmd user (.store (.getJmapState user .emailSpaceRoom))
  | saveSpace (v : String) : RoomCmd user (.store (.saveJmapState user .emailSpaceRoom v))
  | lock : RoomCmd user (.store (.tryAcquireRoomCreationLock (.emailSpace user)))
  | unlock : RoomCmd user (.task (.dropGuard (.emailSpace user)))
  | sleep (n : Nat) : RoomCmd user (.task (.sleep n))
  | token : RoomCmd user (.store (.getJmapState user .matrixPuppetToken))
  | botAvatar (key : String) : RoomCmd user (.store (.getBridgeState key))
  | saveGhost (r : RoomId) (g : String) : RoomCmd user (.store (.saveRoomGhostMapping r g user))
  | register (l : String) : RoomCmd user (.matrix (.ensureUserExists l))
  | displayName (u : UserId) (n : String) : RoomCmd user (.matrix (.setDisplayName u n))
  | createRoom (n e : String) : RoomCmd user (.matrix (.createRoomForContact n e user))
  | createSpace (n t : String) : RoomCmd user (.matrix (.createSpace n t user))
  | avatar (r : RoomId) (n : String) : RoomCmd user (.matrix (.setRoomAvatar r n))
  | state (r : RoomId) (t k : String) : RoomCmd user (.matrix (.putState r t k))
  | join (r : RoomId) (u : UserId) : RoomCmd user (.matrix (.joinRoomAs r u))
  | joinUser (t : String) (r : RoomId) : RoomCmd user (.matrix (.joinRoomViaToken t r))

section

variable {cfg : Config} {user : UserId} {room : RoomId}

theorem SpaceCmd.rooms {c : Cmd} (h : SpaceCmd user c) : RoomCmd user c := by
  cases h <;> constructor

theorem addRoomToSpace_space {space child : RoomId} :
    Does (SpaceCmd user) (addRoomToSpace space child) :=
  .andThen (.matrix (.state ..)) fun _ => .matrix (.state ..)

theorem setSpaceAvatar_space {space : RoomId} : Does (SpaceCmd user) (setSpaceAvatar space) := by
  refine .letSome (.store (.botAvatar _)) fun state => ?_
  split
  · exact .bind (.matrix (.avatar ..)) fun _ => .pure
  · exact .pure

theorem createEmailSpace_space : Does (SpaceCmd user) (createEmailSpace user) :=
  .andThen (.store .ownEmail) fun _ => .andThen (.matrix (.createSpace ..)) fun _ =>
    .andThen (.lift setSpaceAvatar_space) fun _ => .ok

theorem createEmailSpaceLocked_space : Does (SpaceCmd user) (createEmailSpaceLocked user) := by
  refine .guarded .unlock (.andThen (.store .space) fun space => ?_)
  split
  · exact .ok
  · exact .andThen createEmailSpace_space fun _ => .andThen (.store (.saveSpace _)) fun _ => .ok

theorem ensureEmailSpace_space : Does (SpaceCmd user) (ensureEmailSpace user) := by
  refine .loop fun _ => .andThen (.store .space) fun space => ?_
  split
  · exact .ok
  · refine .andThen (.store .lock) fun b => ?_
    split
    · exact .andThen createEmailSpaceLocked_space fun _ => .ok
    · exact .andThen (.lift (.task (.sleep _))) fun _ => .ok

theorem ensureRoomInEmailSpace_space : Does (SpaceCmd user) (ensureRoomInEmailSpace user room) :=
  .andThen ensureEmailSpace_space fun _ => addRoomToSpace_space

theorem registerGhost_rooms {email name : String} :
    Does (RoomCmd user) (registerGhost cfg email name) := by
  refine .andThen (.matrix (.register _)) fun b => ?_
  split
  · exact .bestEffort (.matrix (.displayName ..))
  · exact .ok

theorem joinRealUser_rooms : Does (RoomCmd user) (joinRealUser user room) :=
  .letSome (.store .token) fun _ => .bind (.matrix (.joinUser ..)) fun _ => .pure

theorem createContactRoom_rooms {email name : String} :
    Does (RoomCmd user) (createContactRoom cfg user email name) :=
  .andThen registerGhost_rooms fun _ => .andThen (.matrix (.createRoom ..)) fun _ =>
    .andThen (.store (.saveGhost ..)) fun _ => .andThen (.bestEffort (.matrix (.join ..))) fun _ =>
      .andThen (.lift joinRealUser_rooms) fun _ =>
        .andThen (.bestEffort (ensureRoomInEmailSpace_space.mono fun _ => SpaceCmd.rooms))
          fun _ => .ok

end

end JmapBridge
