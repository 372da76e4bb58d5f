import JmapBridge.Model.Frames

/-! An edit of a queued message, and the same text sent as a new message of the room. The
edit path neither signs the text nor looks for a command in it. -/

namespace JmapBridge

open Effect Sql

/-- The text of a later event and the plain body beside it. -/
structure TextEdit where
  event : EventId
  fallback : String
  text : String
deriving DecidableEq, Repr

/-- The author gives the message another text. -/
def TextEdit.of (e : QueuedEvent) (x : TextEdit) : MatrixEvent :=
  .message e.user e.room x.event x.fallback none (some (.replacement e.event x.text))

/-- The author sends the text as a message of its own. -/
def TextEdit.sent (e : QueuedEvent) (x : TextEdit) : MatrixEvent :=
  .message e.user e.room x.event x.text none none

/-- The message is in the queue, its room is a conversation, and its author is logged in. -/
structure World.Editable (w : World) (e : QueuedEvent) : Prop where
  row : ∃ id row, w.store.outboundQueue.lookup id = some row ∧ row.eventId = e.event
  fresh : w.store.outboundQueue.lookup w.store.nextOutboundId = none
  ghost : (w.store.roomGhostMapping.lookup e.room).isSome
  user : w.store.hasUser e.user
  client : (w.clients.lookup e.user).isSome
  notBridge : isBridgeUser e.user = false

/-- Sent, the last text would be queued; and with the body that the edits leave behind. -/
structure EditsLikeSending (cfg : Config) (calls : Nat → Call) (w : World) (e : QueuedEvent)
    (older : List TextEdit) (last : TextEdit) : Prop where
  queued : ∃ t r w' id row, Eval (bridge cfg calls) storeWorks t
    (processTransaction cfg { events := [last.sent e] }) w r w' ∧
    w.store.outboundQueue.lookup id = none ∧ w'.store.outboundQueue.lookup id = some row
  same : ∀ t r w₁ t' r' w₂, Eval (bridge cfg calls) storeWorks t (processTransaction cfg
      { events := older.map (TextEdit.of e) ++ [last.of e] }) w r w₁ →
    Eval (bridge cfg calls) storeWorks t'
      (processTransaction cfg { events := [last.sent e] }) w r' w₂ →
    ∀ id row id' row', (∃ row, w.store.outboundQueue.lookup id = some row ∧ row.eventId = e.event) →
      w₁.store.outboundQueue.lookup id = some row → w.store.outboundQueue.lookup id' = none →
      w₂.store.outboundQueue.lookup id' = some row' → row.bodyText = row'.bodyText

/-- The text with the signature of the user. -/
def Store.signed (s : Store) (user : UserId) (text : String) : String :=
  match s.userSignatures.lookup user with
  | some sig => if sig = "" then text else s!"{text}\n\n-- \n{sig}"
  | none => text

section

variable {cfg : Config} {calls : Nat → Call} {t : Nat} {w : World} {e : QueuedEvent} {s : Store}
  {text : String}

theorem signed_eq_iff {user : UserId} : s.signed user text = text ↔
    ∀ sig, s.userSignatures.lookup user = some sig → sig = "" := by
  unfold Store.signed
  cases s.userSignatures.lookup user with
  | none => simp
  | some sig =>
    by_cases hsig : sig = ""
    · simp [hsig]
    · have hlonger : s!"{text}\n\n-- \n{sig}" ≠ text := by
        intro heq
        have hlength : (text ++ "\n\n-- \n" ++ sig).length = text.length :=
          congrArg String.length heq
        have hdashes : ("\n\n-- \n" : String).length = 6 := rfl
        rw [String.length_append, String.length_append, hdashes] at hlength
        omega
      simp [hsig, hlonger]

/-! What is queued when the text is sent. -/

theorem appendUserSignature_ends {user : UserId} :
    Ends (bridge cfg calls) storeWorks t (fun w => w.store = s) (appendUserSignature user text)
      fun signed w' => signed = s.signed user text ∧ w'.store = s := by
  refine .bind (find_ends (v := s.userSignatures.lookup user) fun _ _ => rfl) fun r => ?_
  unfold Store.signed
  match r with
  | .ok (some sig) =>
    refine .pure fun w hw => ⟨?_, hw.2⟩
    rw [← Except.ok.inj hw.1]
  | .ok none =>
    refine .pure fun w hw => ⟨?_, hw.2⟩
    rw [← Except.ok.inj hw.1]
  | .error _ => exact .pure fun w hw => nomatch hw.1

theorem queueText_adds {relation : Option Relation} :
    Ends (bridge cfg calls) storeWorks t (fun w' => w'.store = w.store)
      (queueText cfg e text relation)
      fun _ => Adds (fun row => row.bodyText = w.store.signed e.user text) w := by
  have hqueue : ∀ w', w'.store = w.store → SameQueue w w' := fun w' hw => ⟨by rw [hw], by rw [hw]⟩
  refine .bind
    (.lift (Q := fun signed w' => signed = w.store.signed e.user text ∧ w'.store = w.store)
    (F := fun _ _ => False) appendUserSignature_ends) fun signed => ?_
  cases signed with
  | error _ => exact .pure fun _ hw => hw.elim
  | ok signed =>
    by_cases hsigned : signed = w.store.signed e.user text
    case neg => exact fun _ _ _ hw _ => absurd hw.1 hsigned
    refine Ends.weaken (P := SameQueue w) ?_ (fun _ hw => hqueue _ hw.2) fun _ _ h => h
    refine .andThenAlways (R := SameQueue w) (.liftAlways (OffQueue.ends (.task rfl)))
      (fun client => ?_) fun _ hw => hw.adds
    cases client with
    | none =>
      exact .liftAlways ((answerMessage_remark.offQueue.ends).post fun _ _ hw => hw.adds)
    | some account =>
      refine .andThenAlways resolveThreadContext_remark.offQueue.ends (fun context => ?_)
        fun _ hw => hw.adds
      exact enqueueHeldSend_adds.post fun _ _ hadds id row hrow =>
        (hadds id row hrow).imp_right fun hnew => hnew.body.trans hsigned

theorem handleMessage_adds {relation : Option Relation} :
    Ends (bridge cfg calls) storeWorks t (· = w) (handleMessage cfg e text none relation)
      fun _ => Adds (fun row => parseGhostCommand cfg text = none ∧
        row.bodyText = w.store.signed e.user text) w := by
  have hqueue : ∀ w', w'.store = w.store → SameQueue w w' := fun w' hw => ⟨by rw [hw], by rw [hw]⟩
  have hfind : Ends (bridge cfg calls) storeWorks t (· = w)
      (onStore (.getGhostEmailByRoom e.room)) fun _ w' => w'.store = w.store :=
    (find_ends (s := w.store) fun _ _ => rfl).weaken (fun _ hw => by rw [hw]) fun _ _ hw => hw.2
  refine .andThenAlways hfind (fun ghost => ?_) fun w' hw => (hqueue w' hw).adds
  have hoff : ∀ {α : Type} {x : Prog Op α}, OffQueue x → Ends (bridge cfg calls) storeWorks t
      (fun w' => w'.store = w.store) x fun _ => Adds (fun row => parseGhostCommand cfg text = none ∧
        row.bodyText = w.store.signed e.user text) w :=
    fun hx => hx.ends.weaken hqueue fun _ _ hw => hw.adds
  cases ghost with
  | none => exact hoff (.lift (.task rfl))
  | some ghost =>
    have hhandled : Ends (bridge cfg calls) storeWorks t (fun w' => w'.store = w.store)
        (handleGhostOutbound cfg e text relation) fun _ => Adds (fun row =>
          parseGhostCommand cfg text = none ∧ row.bodyText = w.store.signed e.user text) w := by
      unfold handleGhostOutbound
      split
      · exact hoff handleShowImages_offQueue
      · exact hoff handleThreadAction_offQueue
      · exact hoff handleThreadAction_offQueue
      · next hparse =>
        exact queueText_adds.post fun _ _ hadds id row hrow =>
          (hadds id row hrow).imp_right fun hbody => ⟨hparse, hbody⟩
    refine .andThenAlways (.attemptAlways hhandled) (fun handled => ?_) fun _ hw => hw
    cases handled with
    | ok _ => exact .pure fun _ hw => hw
    | error err =>
      simp only
      split
      · exact .pure fun _ hw => hw
      · exact .pure fun _ hw => hw

/-! The text may be queued. -/

theorem roomThreadContext_can {room : RoomId} {Q : Except Err (Option ThreadContext) → World → Prop}
    (hQ : ∀ context w', SameState w w' → Q (.ok context) w') :
    Can (bridge cfg calls) storeWorks t (roomThreadContext room) w Q := by
  refine .andThen (.attempt (find_can (fun _ _ => rfl) fun w₁ h₁ => ?_))
  cases (w.store.threadMapping.findWhere fun _ r => r.roomId == room).map fun r =>
      (r.1, r.2.rootEventId, w.store.matrixThreadSubjects.lookup r.2.rootEventId) with
  | none => exact .ok (hQ _ _ h₁)
  | some found =>
    refine .andThen (.attempt (find_can (fun _ _ => rfl) fun w₂ h₂ => ?_))
    exact .andThen (find_can (fun _ _ => rfl) fun w₃ h₃ => .ok (hQ _ _ ((h₁.trans h₂).trans h₃)))

theorem showHeld_can {delay : Nat} {Q : Unit → World → Prop}
    (hQ : ∀ w', SameQueue w w' → Q () w') :
    Can (bridge cfg calls) storeWorks t (showHeld cfg e delay) w Q := by
  unfold showHeld
  split
  case isFalse => exact .pure (hQ _ .refl)
  have hreaction : Can (bridge cfg calls) storeWorks t
      (result (sendReaction cfg e.room e.event heldReaction)) w fun r w' =>
        r = .error .matrix ∧ SameQueue w w' :=
    .andThen (.attempt (may_perform .failed rfl rfl (.fail ⟨rfl, rfl, rfl⟩)))
  have hmark :
      Can (bridge cfg calls) storeWorks t (markHeld cfg e) w fun _ w' => SameQueue w w' := by
    refine .bind (hreaction.mono fun r w₁ h₁ => ?_)
    rw [h₁.1]
    exact .pure h₁.2
  refine .bind (hmark.mono fun _ w₁ h₁ => .bind (find_can (fun _ _ => rfl) fun w₂ h₂ => ?_))
  have hfound := h₁.trans h₂.sameQueue
  split
  · exact .pure (hQ _ hfound)
  · refine .bind (notify_can (fun _ _ _ => rfl) _ _ fun w₃ h₃ => ?_)
    exact .bind (write_can rfl fun _ w₄ h₄ => .pure (hQ _ ((hfound.trans h₃).trans h₄)))

theorem queueText_can (huser : w.store.hasUser e.user)
    (hclient : (w.clients.lookup e.user).isSome) :
    Can (bridge cfg calls) storeWorks t (queueText cfg e text none) w fun _ w' =>
      (w'.store.outboundQueue.lookup w.store.nextOutboundId).isSome := by
  obtain ⟨account, haccount⟩ := Option.isSome_iff_exists.mp hclient
  have hsign : Can (bridge cfg calls) storeWorks t (appendUserSignature e.user text) w
      fun _ w' => SameState w w' := by
    refine .bind (find_can (fun _ _ => rfl) fun w₁ h₁ => ?_)
    cases w.store.userSignatures.lookup e.user with
    | none => exact .pure h₁
    | some sig => exact .pure h₁
  refine .andThen (.lift (hsign.mono fun signed w₁ h₁ => ?_))
  have hlookup : w₁.clients.lookup e.user = some account := by rw [h₁.clients, haccount]
  refine .andThen (.lift (may_perform .done rfl rfl ?_))
  simp only [hlookup]
  refine .andThen (roomThreadContext_can fun context w₂ h₂ => ?_)
  refine .andThen (.lift (.bind (find_can (fun _ _ => rfl) fun w₃ h₃ => .pure ?_)))
  have hsame : w₃.store = w.store := h₃.store.trans (h₂.store.trans h₁.store)
  have hperform : w₃.store.hasUser e.user := by rw [hsame, huser]
  refine .andThen (may_perform .done rfl rfl ?_)
  simp only [StoreCmd.run, Store.referring, hperform, if_true]
  refine .lift (showHeld_can fun w₄ h₄ => ?_)
  rw [h₄.rows, ← hsame, AList.lookup_insert]
  rfl

theorem routeGhostMessage_can {Q : World → Prop} (hparse : parseGhostCommand cfg text = none)
    (h : Can (bridge cfg calls) storeWorks t (queueText cfg e text none) w fun _ => Q) :
    Can (bridge cfg calls) storeWorks t (routeGhostMessage cfg e text none none) w fun _ => Q := by
  have hprogram : handleGhostOutbound cfg e text none = queueText cfg e text none := by
    unfold handleGhostOutbound
    rw [hparse]
  refine .andThen (.attempt ?_)
  rw [hprogram]
  refine h.mono fun r w₁ h₁ => ?_
  cases r with
  | ok _ => exact .ok h₁
  | error err =>
    have hlast : Can (bridge cfg calls) storeWorks t
        (if redeliverable err = true then Act.fail err else Act.ok () : Bridge Unit) w₁
          fun _ => Q := by
      split
      · exact .fail h₁
      · exact .ok h₁
    exact hlast

theorem sent_program (x : TextEdit) (hbridge : isBridgeUser e.user = false) :
    processTransaction cfg { events := [x.sent e] } =
      Act.andThen (handleMessage cfg ⟨e.user, e.room, x.event⟩ x.text none none) fun _ =>
        Act.ok () := by
  have hlike : handleEvent cfg (x.sent e) =
      handleMessage cfg ⟨e.user, e.room, x.event⟩ x.text none none := by
    simp only [TextEdit.sent, handleEvent, handleMessageLike, MatrixEvent.sender, hbridge]
    rfl
  change Act.andThen (handleEvent cfg (x.sent e)) _ = _
  rw [hlike]
  rfl

theorem sent_adds {x : TextEdit} (hbridge : isBridgeUser e.user = false) :
    Ends (bridge cfg calls) storeWorks t (· = w) (processTransaction cfg { events := [x.sent e] })
      fun _ => Adds (fun row => parseGhostCommand cfg x.text = none ∧
        row.bodyText = w.store.signed e.user x.text) w := by
  rw [sent_program x hbridge]
  exact .andThenAlways (handleMessage_adds (e := ⟨e.user, e.room, x.event⟩))
    (fun _ => .pure fun _ hw => hw) fun _ hw => hw

theorem sent_can {x : TextEdit} (hw : w.Editable e) (hparse : parseGhostCommand cfg x.text = none) :
    Can (bridge cfg calls) storeWorks t (processTransaction cfg { events := [x.sent e] }) w
      fun _ w' => (w'.store.outboundQueue.lookup w.store.nextOutboundId).isSome := by
  obtain ⟨ghost, hghost⟩ := Option.isSome_iff_exists.mp hw.ghost
  rw [sent_program x hw.notBridge]
  have hmessage : Can (bridge cfg calls) storeWorks t
      (handleMessage cfg ⟨e.user, e.room, x.event⟩ x.text none none) w fun _ w' =>
        (w'.store.outboundQueue.lookup w.store.nextOutboundId).isSome := by
    refine .andThen (find_can (fun _ _ => rfl) fun w₁ h₁ => ?_)
    rw [hghost]
    have hqueue : Can (bridge cfg calls) storeWorks t
        (queueText cfg ⟨e.user, e.room, x.event⟩ x.text none) w₁ fun _ w' =>
          (w'.store.outboundQueue.lookup w₁.store.nextOutboundId).isSome :=
      queueText_can (by rw [h₁.store]; exact hw.user) (by rw [h₁.clients]; exact hw.client)
    rw [h₁.store] at hqueue
    exact routeGhostMessage_can hparse hqueue
  refine .andThen (hmessage.mono fun r w₁ h₁ => ?_)
  cases r with
  | ok _ => exact .ok h₁
  | error _ => exact h₁

/-! What the edits leave behind. -/

/-- The rows of the message have the text. -/
def Texted (w : World) (event : EventId) (text : String) (w' : World) : Prop :=
  ∀ id row, w.store.outboundQueue.lookup id = some row → row.eventId = event →
    w'.store.outboundQueue.lookup id = some { row with bodyText := text }

/-- The rows of the message are there, with texts of their own. -/
def Sustained (w : World) (event : EventId) (w' : World) : Prop :=
  ∀ id row, w.store.outboundQueue.lookup id = some row → row.eventId = event →
    ∃ text, w'.store.outboundQueue.lookup id = some { row with bodyText := text }

theorem edit_ends {x : TextEdit} (hbridge : isBridgeUser e.user = false) :
    Ends (bridge cfg calls) storeWorks t (Sustained w e.event) (handleEvent cfg (x.of e))
      fun r w' => r = .ok () ∧ Texted w e.event x.text w' := by
  have hprogram : handleEvent cfg (x.of e) = Act.lift (handleEdit cfg e.room e.event x.text) := by
    simp only [TextEdit.of, handleEvent, handleMessageLike, MatrixEvent.sender, hbridge]
    rfl
  rw [hprogram]
  have hedit : Ends (bridge cfg calls) storeWorks t (Sustained w e.event)
      (handleEdit cfg e.room e.event x.text) fun _ => Texted w e.event x.text := by
    refine .bind (Q := fun _ => Texted w e.event x.text) (.call fun w₁ a r w' hw hd he => ?_)
      fun r => ?_
    · have he : exec t (.mk (.store (.updateOutboundBodyByEvent e.event x.text))) a w₁ =
        some (r, w') := he
      obtain ⟨order, -, hstore, -⟩ := exec_carriedOut hd he
      intro id row hrow heq
      obtain ⟨text, htext⟩ := hw id row hrow heq
      rw [hstore]
      change (Table.modifyWhere _ _ w₁.store.outboundQueue).lookup id = _
      rw [Table.lookup_modifyWhere, htext, Option.map_some, if_pos (beq_iff_eq.mpr heq)]
    · have hkeeps : ∀ w₁ w₂, Texted w e.event x.text w₁ → SameQueue w₁ w₂ →
          Texted w e.event x.text w₂ :=
        fun w₁ w₂ hw hq id row hrow heq => by rw [hq.rows, hw id row hrow heq]
      split
      · exact notify_remark.offQueue.keeps hkeeps
      · exact .pure fun _ hw => hw
  exact .bind hedit fun _ => .pure fun _ hw => ⟨rfl, hw⟩

theorem edits_end {older : List TextEdit} {last : TextEdit}
    (hbridge : isBridgeUser e.user = false) :
    Ends (bridge cfg calls) storeWorks t (Sustained w e.event)
      (Act.forEach (handleEvent cfg) (older.map (TextEdit.of e) ++ [last.of e]))
      fun _ => Texted w e.event last.text := by
  induction older with
  | nil =>
    refine .bind (edit_ends hbridge) fun r => ?_
    cases r with
    | ok _ => exact .pure fun _ hw => hw.2
    | error _ => exact .pure fun _ hw => nomatch hw.1
  | cons x older ih =>
    refine .bind (edit_ends hbridge) fun r => ?_
    cases r with
    | ok _ => exact ih.weaken (fun _ hw id row hrow heq => ⟨_, hw.2 id row hrow heq⟩) fun _ _ h => h
    | error _ => exact .pure fun _ hw => nomatch hw.1

theorem edits_can {events : List TextEdit} (hbridge : isBridgeUser e.user = false) :
    Can (bridge cfg calls) storeWorks t
      (Act.forEach (handleEvent cfg) (events.map (TextEdit.of e))) w
      fun _ _ => True := by
  induction events generalizing w with
  | nil => exact .ok trivial
  | cons x events ih =>
    have hprogram : handleEvent cfg (x.of e) = Act.lift (handleEdit cfg e.room e.event x.text) := by
      simp only [TextEdit.of, handleEvent, handleMessageLike, MatrixEvent.sender, hbridge]
      rfl
    have hedit : Can (bridge cfg calls) storeWorks t (handleEdit cfg e.room e.event x.text) w
        fun _ _ => True := by
      refine .bind (may_perform .done rfl rfl ?_)
      split
      · exact notify_can (fun _ _ _ => rfl) _ _ fun _ _ => trivial
      · exact .pure trivial
    refine .andThen ?_
    rw [hprogram]
    exact .lift (hedit.mono fun _ _ _ => ih)

theorem sent_row {x : TextEdit} {w' : World} {r : Except Err Unit}
    (hbridge : isBridgeUser e.user = false)
    (h : Eval (bridge cfg calls) storeWorks t
      (processTransaction cfg { events := [x.sent e] }) w r w')
    {id : Nat} {row : OutboundRow} (hnone : w.store.outboundQueue.lookup id = none)
    (hrow : w'.store.outboundQueue.lookup id = some row) :
    parseGhostCommand cfg x.text = none ∧ row.bodyText = w.store.signed e.user x.text := by
  rcases sent_adds hbridge w r w' rfl h id row hrow with hold | hnew
  · rw [hnone] at hold
    cases hold
  · exact hnew

theorem edited_row {older : List TextEdit} {last : TextEdit} {w' : World} {r : Except Err Unit}
    (hbridge : isBridgeUser e.user = false)
    (h : Eval (bridge cfg calls) storeWorks t (processTransaction cfg
      { events := older.map (TextEdit.of e) ++ [last.of e] }) w r w') :
    Texted w e.event last.text w' :=
  edits_end hbridge w _ _ (fun _ row hrow _ => ⟨row.bodyText, hrow⟩) h

theorem EditsLikeSending.unsigned {older : List TextEdit} {last : TextEdit} (hw : w.Editable e)
    (h : EditsLikeSending cfg calls w e older last) : parseGhostCommand cfg last.text = none ∧
      ∀ sig, w.store.userSignatures.lookup e.user = some sig → sig = "" := by
  obtain ⟨t, r, w₂, id', row', hsend, hnone, hrow'⟩ := h.queued
  obtain ⟨hparse, hbody⟩ := sent_row hw.notBridge hsend hnone hrow'
  obtain ⟨id, row, hrow, hevent⟩ := hw.row
  obtain ⟨r₁, w₁, hedit, -⟩ : Can (bridge cfg calls) storeWorks 0
      (Act.forEach (handleEvent cfg) ((older ++ [last]).map (TextEdit.of e))) w fun _ _ => True :=
    edits_can hw.notBridge
  have hedit : Eval (bridge cfg calls) storeWorks 0 (processTransaction cfg
      { events := older.map (TextEdit.of e) ++ [last.of e] }) w r₁ w₁ := by
    rw [List.map_append] at hedit
    exact hedit
  have hsame := h.same 0 r₁ w₁ t r w₂ hedit hsend id _ id' row' ⟨row, hrow, hevent⟩
    (edited_row hw.notBridge hedit id row hrow hevent) hnone hrow'
  have hsigned : w.store.signed e.user last.text = last.text := (hsame.trans hbody).symm
  exact ⟨hparse, signed_eq_iff.mp hsigned⟩

end

/-- The body that is left after the edits is the one that sending the last text would have
queued, if and only if the text is no command and the author has no signature. -/
theorem edits_like_sending_iff (cfg : Config) (calls : Nat → Call) (w : World) (e : QueuedEvent)
    (older : List TextEdit) (last : TextEdit) (hw : w.Editable e) :
    EditsLikeSending cfg calls w e older last ↔ parseGhostCommand cfg last.text = none ∧
      ∀ sig, w.store.userSignatures.lookup e.user = some sig → sig = "" := by
  constructor
  · exact EditsLikeSending.unsigned hw
  · rintro ⟨hparse, hunsigned⟩
    obtain ⟨r, w', hsend, hrow⟩ : Can (bridge cfg calls) storeWorks 0
        (processTransaction cfg { events := [last.sent e] }) w fun _ w' =>
          (w'.store.outboundQueue.lookup w.store.nextOutboundId).isSome := sent_can hw hparse
    obtain ⟨row, hrow⟩ := Option.isSome_iff_exists.mp hrow
    refine ⟨⟨0, r, w', _, row, hsend, hw.fresh, hrow⟩, ?_⟩
    rintro t r₁ w₁ t' r₂ w₂ hedit hsend id row₁ id' row' ⟨row, hrow, hevent⟩ hrow₁ hnone hrow'
    rw [edited_row hw.notBridge hedit id row hrow hevent] at hrow₁
    obtain rfl := Option.some.inj hrow₁
    rw [(sent_row hw.notBridge hsend hnone hrow').2, signed_eq_iff.mpr hunsigned]

/-- Alice has a message in the queue for Bob, and the signature given. -/
def draftWorld (signature : String) : World where
  clients := (∅ : Table _ _).insert "@a:localhost" "a@x"
  store :=
    { users := (∅ : Table _ _).insert "@a:localhost" ⟨"a@x", "token", "url"⟩
      userSignatures := (∅ : Table _ _).insert "@a:localhost" signature
      roomGhostMapping := (∅ : Table _ _).insert "!r" ⟨"b@y", none, "@a:localhost"⟩
      outboundQueue := (∅ : Table _ _).insert 1
        { matrixUserId := "@a:localhost", roomId := "!r", eventId := "$m", bodyText := "Hello"
          lastRetryAt := 0, releaseAt := 60 }
      nextOutboundId := 2 }

theorem draft_editable (signature : String) :
    (draftWorld signature).Editable ⟨"@a:localhost", "!r", "$m"⟩ where
  row := ⟨1, _, rfl, rfl⟩
  fresh := rfl
  ghost := rfl
  user := rfl
  client := rfl
  notBridge := by decide

/-- Without a signature the two ways agree. -/
theorem edits_like_sending_unsigned : EditsLikeSending {} (fun _ => .worker) (draftWorld "")
    ⟨"@a:localhost", "!r", "$m"⟩ [⟨"$n", "* Hey", "Hey"⟩] ⟨"$o", "* Hi", "Hi"⟩ :=
  (edits_like_sending_iff {} _ _ _ _ _ (draft_editable "")).mpr
    ⟨by decide +kernel, fun sig hsig => by
      obtain rfl := Option.some.inj hsig
      rfl⟩

/-- With a signature the edited message is sent without it. -/
theorem edit_drops_signature : ¬ EditsLikeSending {} (fun _ => .worker) (draftWorld "Alice")
    ⟨"@a:localhost", "!r", "$m"⟩ [] ⟨"$n", "* Hi", "Hi"⟩ := by
  intro h
  have hempty : "Alice" = "" := (h.unsigned (draft_editable "Alice")).2 "Alice" rfl
  exact absurd hempty (by decide)

end JmapBridge
