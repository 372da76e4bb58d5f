import JmapBridge.Property.Correspondents

/-! Where mail is shown. What the bridge keeps of rooms, threads and messages goes back to what it
has done, and so every mail is shown in a room of its own thread: whatever tasks interleave or are
cut off, and whatever the servers answer. -/

namespace JmapBridge

open Effect

variable {cfg : Config} {duties : Nat → Duty} {start : World} {t : Nat}

/-! ### What is kept -/

/-- Some task has done what the fact says. A partner is whom a user corresponds with, for whom the
room was made, and a message shows the mail that was posted as it. -/
def Founded (cfg : Config) (duties : Nat → Duty) (deeds : Deeds) : Fact → Prop
  | .partner room address => ∃ t user, MadeRoom deeds t user address room ∧
      Correspondent cfg duties deeds user address
  | .bound thread root room => ∃ t, BindsThread cfg duties deeds t thread root room
  | .shown email event => ∃ t, ShowsMail cfg duties deeds t email event

theorem BindsThread.lasting {thread : ThreadId} {root : EventId} {room : RoomId} :
    Lasting fun deeds => BindsThread cfg duties deeds t thread root room := by
  intro n deeds h
  cases h with
  | inbound hmail hthread hroom hposted =>
    exact .inbound (MailInHand.lasting n deeds hmail) hthread (MadeRoom.lasting n deeds hroom)
      (PostedMail.lasting n deeds hposted)
  | composed hworker hsent hthread =>
    exact .composed hworker (List.mem_cons_of_mem _ hsent) (List.mem_cons_of_mem _ hthread)

theorem ShowsMail.lasting {emailId : EmailId} {event : EventId} :
    Lasting fun deeds => ShowsMail cfg duties deeds t emailId event :=
  .exists fun _ => .exists fun _ => .exists fun _ => .exists fun _ =>
    .and MailInHand.lasting (.and (.const _) PostedMail.lasting)

theorem Founded.lasting {f : Fact} : Lasting fun deeds => Founded cfg duties deeds f := by
  cases f with
  | partner room address =>
    exact .exists fun _ => .exists fun _ => .and MadeRoom.lasting Correspondent.lasting
  | bound thread root room => exact .exists fun _ => BindsThread.lasting
  | shown email event => exact .exists fun _ => ShowsMail.lasting

theorem founded_of_written {f : Fact} {d : BridgeDeed} {deeds : Deeds}
    (hwritten : f.WrittenBy d.cmd)
    (hgrant : BridgeDeed.Mandated cfg duties deeds d) : Founded cfg duties deeds f := by
  unfold BridgeDeed.Mandated at hgrant
  cases f with
  | partner room address =>
    obtain ⟨user, hc⟩ := hwritten
    rw [hc] at hgrant
    exact ⟨d.task, user, hgrant.1, hgrant.2⟩
  | bound thread root room =>
    obtain ⟨subject, hc⟩ := hwritten
    rw [hc] at hgrant
    exact ⟨d.task, hgrant⟩
  | shown email event =>
    have hc : d.cmd = .store (.saveMessageMapping email event) := hwritten
    rw [hc] at hgrant
    exact ⟨d.task, hgrant⟩

theorem Fact.Known.founded {f : Fact} {newer deeds : Deeds}
    (hgranted : (deedBook cfg duties start).Granted (newer ++ deeds)) (h : f.Known start deeds) :
    f.Holds start ∨ Founded cfg duties deeds f := by
  rcases hgranted.since h with h | ⟨later, d, older, rfl, hwritten, hgrant⟩
  · exact .inl h
  · have hfounded : Founded cfg duties older f := founded_of_written hwritten hgrant
    exact .inr (Founded.lasting.append later (Founded.lasting d older hfounded))

section

variable {es : List (Event Answer Env)} {w : World} {q : Pool Op World} {f : Fact}

theorem told_is_founded (hw : w.trace = [])
    (hrun : (household cfg duties).run es (Pool.boot w) = some q)
    (hspawn : (household cfg duties).Admits (spawnedFirst duties).meets es (Pool.boot w))
    {newer older : Deeds} {d : BridgeDeed} (hd : deedsOf cfg duties es w = newer ++ d :: older)
    (hf : f.ToldBy d) : f.Holds w ∨ Founded cfg duties older f := by
  obtain ⟨hgranted, hchronicle⟩ := chronicle_of_run hw hrun hspawn
  have hknown : f.Known w older := hchronicle.told newer d older hd f hf
  rw [hd, List.append_cons] at hgranted
  exact hknown.founded hgranted

/-- In every reachable state whatever the bridge keeps of a room's partner, of a thread's room and
of the mail that a message shows was so from the start or was done by a task that was entitled to
it, and a task that asks is told nothing else. -/
theorem kept_facts_are_founded (hw : w.trace = [])
    (hrun : (household cfg duties).run es (Pool.boot w) = some q)
    (hspawn : (household cfg duties).Admits (spawnedFirst duties).meets es (Pool.boot w))
    (f : Fact) :
    (f.Holds q.world → f.Holds w ∨ Founded cfg duties (deedsOf cfg duties es w) f) ∧
      ∀ newer d older, deedsOf cfg duties es w = newer ++ d :: older → f.ToldBy d →
        f.Holds w ∨ Founded cfg duties older f := by
  refine ⟨fun hf => ?_, fun newer d older hd hf => told_is_founded hw hrun hspawn hd hf⟩
  obtain ⟨hgranted, hchronicle⟩ := chronicle_of_run hw hrun hspawn
  have hknown : f.Known w (deedsOf cfg duties es w) := hchronicle.facts f hf
  have hall : (deedBook cfg duties w).Granted ([] ++ deedsOf cfg duties es w) := hgranted
  exact hknown.founded hall

end

def inOneThread (sender : String) (email : EmailId) : Email where
  id := some email
  threadId := some "T"
  fromAddrs := some [⟨none, sender⟩]

/-- Alice has synced before, and has no mail bridged. -/
def aliceUpToDate : World := { aliceAtHome with
  store := { aliceAtHome.store with
    jmapState := aliceAtHome.store.jmapState.insert ("@alice:x", .changes) "s0" } }

def pollOfAlice : Nat → Duty := fun _ => .call (.poll ⟨"@alice:x", "alice@z"⟩)

/-- Bob's mail is given a room, and Carol's mail of the same thread is shown there. -/
def bobAndCarol : List (Event Answer Env) := List.flatten [
  [.start 0, .step 0 .done, .tau 0,
    .step 0 (.reply (.changes { newState := "s1", created := ["e1", "e2"] })),
    .step 0 (.reply (.emails [inOneThread "bob@y.z" "e1", inOneThread "carol@y.z" "e2"]))],
  List.replicate 3 (.step 0 .done), [.step 0 (.flag false), .step 0 .done, .tau 0],
  List.replicate 3 (.step 0 .done), [.step 0 (.flag false), .step 0 (.id "!r")],
  List.replicate 3 (.step 0 .done), [.tau 0], List.replicate 6 (.step 0 .done),
  [.step 0 (.id "$1")], List.replicate 8 (.step 0 .done),
  [.step 0 (.flag false), .step 0 .done, .step 0 (.id "$2")], List.replicate 5 (.step 0 .done)]

theorem kept_facts_are_founded_bob : ∃ q,
    (household onlyAlice pollOfAlice).run bobAndCarol (Pool.boot aliceUpToDate) = some q ∧
      (Fact.shown "e1" "$1").Holds q.world ∧
      Founded onlyAlice pollOfAlice (deedsOf onlyAlice pollOfAlice bobAndCarol aliceUpToDate)
        (.shown "e1" "$1") := by
  have hends : ((household onlyAlice pollOfAlice).run bobAndCarol (Pool.boot aliceUpToDate)).map
      (fun q => q.world.store.messageMapping.lookup "e1") = some (some "$1") := by decide +kernel
  have hspawn : (household onlyAlice pollOfAlice).Admits (spawnedFirst pollOfAlice).meets
      bobAndCarol (Pool.boot aliceUpToDate) := by decide +kernel
  obtain ⟨q, hq, hshown⟩ := Option.map_eq_some_iff.mp hends
  have hholds : (Fact.shown "e1" "$1").Holds q.world := hshown
  refine ⟨q, hq, hholds, ?_⟩
  rcases (kept_facts_are_founded rfl hq hspawn (.shown "e1" "$1")).1 hholds with hstart | hfounded
  · cases hstart
  · exact hfounded

/-! ### What is shown -/

/-- The rooms of a thread: the one it is bound to from the start, those made for a user who had
mail of the thread, and those where mail was typed that the server put in the thread. -/
inductive Home (cfg : Config) (duties : Nat → Duty) (start : World) (deeds : Deeds)
    (thread : ThreadId) : RoomId → Prop
  | kept {root : EventId} {room : RoomId} (hroom : (Fact.bound thread root room).Holds start) :
      Home cfg duties start deeds thread room
  | made {t : Nat} {user : UserId} {email : Email} {address : String} {room : RoomId}
      (hmail : MailInHand duties deeds t user email address)
        (hthread : email.threadId = some thread)
      (hroom : MadeRoom deeds t user address room) : Home cfg duties start deeds thread room
  | composed {t : Nat} {account : Account} {draft : Draft} {emailId : EmailId}
      (hworker : duties t = .call .worker)
      (hsent : ⟨t, .jmap account (.submitBatch draft),
        .ok { created := some emailId, submitted := true }⟩ ∈ deeds)
      (hthread : ⟨t, .jmap account (.getEmailThread emailId), .ok (some thread)⟩ ∈ deeds) :
      Home cfg duties start deeds thread draft.source.roomId

theorem BindsThread.home {thread : ThreadId} {root : EventId} {room : RoomId} {deeds : Deeds}
    (h : BindsThread cfg duties deeds t thread root room) :
      Home cfg duties start deeds thread room := by
  cases h with
  | inbound hmail hthread hroom hposted => exact .made hmail hthread hroom
  | composed hworker hsent hthread => exact .composed hworker hsent hthread

theorem Home.lasting {thread : ThreadId} {room : RoomId} :
    Lasting fun deeds => Home cfg duties start deeds thread room := by
  intro n deeds h
  cases h with
  | kept hroom => exact .kept hroom
  | made hmail hthread hroom =>
    exact .made (MailInHand.lasting n deeds hmail) hthread (MadeRoom.lasting n deeds hroom)
  | composed hworker hsent hthread =>
    exact .composed hworker (List.mem_cons_of_mem _ hsent) (List.mem_cons_of_mem _ hthread)

/-- What task `t` shows: a mail that it has read for a user and that is of another sender and not
shown yet, in a room of the mail's thread, as the ghost of its sender, and below it the files that
came with it, fetched with the user's own credentials. -/
inductive ShownRightly (cfg : Config) (duties : Nat → Duty) (start : World) (deeds : Deeds)
    (t : Nat) :
    MatrixCmd → Prop
  | message {user : UserId} {email : Email} {address : String} {thread : ThreadId} {room : RoomId}
      (hmail : MailInHand duties deeds t user email address)
      (hthread : email.threadId = some thread)
      (hroom : Home cfg duties start deeds thread room) :
      ShownRightly cfg duties start deeds t (.sendAsGhost room (cfg.ghostUserId address)
        (.message (EmailBody.fromEmail cfg email)) email.timestamp)
  | file {user : UserId} {email : Email} {address : String} {thread : ThreadId} {room : RoomId}
      {event : EventId} {part : EmailBodyPart} {blob mxc : String} {row : RegisteredUser}
      (hmail : MailInHand duties deeds t user email address)
      (hthread : email.threadId = some thread)
      (hroom : Home cfg duties start deeds thread room)
      (hposted : PostedMail cfg deeds t room email address event)
      (hpart : part ∈ email.attachments.getD [])
      (hblob : part.blobId = some blob) (hsize : part.size ≤ maxAttachmentSize)
      (hrow : ⟨t, .store (.getUser user), .ok (some row)⟩ ∈ deeds)
      (hdownload : ⟨t, .matrix (.downloadBlob blob part.fileName row.jmapUsername row.jmapToken),
        .ok ()⟩ ∈ deeds)
      (hupload : ⟨t,
        .matrix (.uploadMediaStream (cfg.ghostUserId address) part.mimeType part.fileName),
        .ok mxc⟩ ∈ deeds) :
      ShownRightly cfg duties start deeds t (.sendAsGhost room (cfg.ghostUserId address)
        (.file mxc part.fileName part.mimeType) email.timestamp)

/-- In the same runs whatever message is posted as anyone but the bot, and every file, is a mail
shown rightly, or a file that came with one. -/
theorem mail_is_shown_in_its_thread {es : List (Event Answer Env)} {w : World} {q : Pool Op World}
    (hw : w.trace = []) (hrun : (household cfg duties).run es (Pool.boot w) = some q)
    (hspawn : (household cfg duties).Admits (spawnedFirst duties).meets es (Pool.boot w))
    {newer older : Deeds} {d : BridgeDeed} (hd : deedsOf cfg duties es w = newer ++ d :: older)
    {c : MatrixCmd} (hc : d.cmd = .matrix c) (hshows : c.shows cfg) :
    ShownRightly cfg duties w older d.task c := by
  have hgrant : BridgeDeed.Mandated cfg duties older d :=
    (chronicle_of_run hw hrun hspawn).1 newer d older hd
  unfold BridgeDeed.Mandated at hgrant
  rw [hc] at hgrant
  have hhome : ∀ user email address thread room, MailInHand duties older d.task user email address →
      email.threadId = some thread → GivenRoom older d.task user address thread room →
      Home cfg duties w older thread room := by
    intro user email address thread room hmail hthread hroom
    cases hroom with
    | made hmade => exact .made hmail hthread hmade
    | @found row hfound =>
      obtain ⟨later, oldest, hsplit⟩ := List.append_of_mem hfound
      have hall : deedsOf cfg duties es w = (newer ++ d :: later) ++
          ⟨d.task, .store (.getThreadInfo thread), .ok (some row)⟩ :: oldest := by
        rw [hd, hsplit, List.append_assoc, List.cons_append]
      rw [hsplit]
      rcases told_is_founded hw hrun hspawn hall .bound with hkept | ⟨i, hbinds⟩
      · exact .kept hkept
      · exact Home.lasting.append later (Home.lasting _ oldest hbinds.home)
  cases hgrant.2 hshows with
  | message hmail hthread hroom =>
    exact .message hmail hthread (hhome _ _ _ _ _ hmail hthread hroom)
  | file hmail hthread hroom hposted hpart hblob hsize hrow hdownload hupload =>
    exact .file hmail hthread (hhome _ _ _ _ _ hmail hthread hroom) hposted hpart hblob hsize hrow
      hdownload hupload

def carolsPost : MatrixCmd := .sendAsGhost "!r" (onlyAlice.ghostUserId "carol@y.z")
  (.message (EmailBody.fromEmail onlyAlice (inOneThread "carol@y.z" "e2"))) none

theorem mail_is_shown_in_its_thread_carol : ∃ newer older d,
    deedsOf onlyAlice pollOfAlice bobAndCarol aliceUpToDate = newer ++ d :: older ∧
      d.cmd = .matrix carolsPost ∧
      ShownRightly onlyAlice pollOfAlice aliceUpToDate older d.task carolsPost := by
  have hends :
      ((household onlyAlice pollOfAlice).run bobAndCarol (Pool.boot aliceUpToDate)).isSome := by
    decide +kernel
  have hspawn : (household onlyAlice pollOfAlice).Admits (spawnedFirst pollOfAlice).meets
      bobAndCarol (Pool.boot aliceUpToDate) := by decide +kernel
  have hposted : (deedsOf onlyAlice pollOfAlice bobAndCarol aliceUpToDate).any (fun d =>
      d.cmd == .matrix carolsPost) := by decide +kernel
  obtain ⟨q, hq⟩ := Option.isSome_iff_exists.mp hends
  obtain ⟨d, hd, hcmd⟩ := List.any_eq_true.mp hposted
  obtain ⟨newer, older, hsplit⟩ := List.append_of_mem hd
  have hc : d.cmd = .matrix carolsPost := eq_of_beq hcmd
  exact ⟨newer, older, d, hsplit, hc, mail_is_shown_in_its_thread rfl hq hspawn hsplit hc rfl⟩

end JmapBridge
