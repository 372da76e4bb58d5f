import JmapBridge.Model.Frames

/-! Redactions and edits of queued messages, and whose rows they change. The bridge looks at
the event they name, not at who sent it. -/

namespace JmapBridge

open Effect Sql

/-- The rows of all other users are in the queue as they were. -/
def OthersStay (sender : UserId) (w w' : World) : Prop :=
  ∀ id row, w.store.outboundQueue.lookup id = some row → row.matrixUserId ≠ sender →
    w'.store.outboundQueue.lookup id = some row

def MatrixEvent.amends : MatrixEvent → Bool
  | .redaction _ _ _ => true
  | .message _ _ _ _ _ (some (.replacement _ _)) => true
  | _ => false

/-- The event cancels the row, or gives it another text. -/
def MatrixEvent.alters : MatrixEvent → OutboundRow → Bool
  | .redaction _ _ (some redacted), row => row.eventId == redacted
  | .message _ _ _ _ _ (some (.replacement target newBody)), row =>
    row.eventId == target && row.bodyText != newBody
  | _, _ => false

section

variable {cfg : Config} {calls : Nat → Call} {t : Nat} {w : World} {sender : UserId}
  {room : RoomId} {target : EventId} {newBody : String}

theorem othersStay_of_sameQueue (w₁ w₂ : World) (h : OthersStay sender w w₁)
    (hq : SameQueue w₁ w₂) : OthersStay sender w w₂ :=
  fun id row hrow hne => by rw [hq.rows, h id row hrow hne]

theorem ends_statement {c : StoreCmd} {Q : World → Prop}
    (hdone : ∀ order w', w'.store = (c.run w.now order w.store).2 → Q w')
    (hfailed : ∀ w', w'.store = w.store → Q w') :
    Ends (bridge cfg calls) {} t (· = w) (onStore c) fun _ => Q := by
  refine .call fun w₁ a r w' hw _ he => ?_
  have he : exec t (.mk (.store c)) a w₁ = some (r, w') := he
  subst hw
  rcases exec_store he with ⟨order, -, -, rfl⟩ | ⟨-, -, rfl⟩ | ⟨-, -, rfl⟩
  · exact hdone order _ rfl
  · exact hfailed _ rfl
  · exact hdone [] _ rfl

theorem handleRedaction_others (hown : ∀ id row, w.store.outboundQueue.lookup id = some row →
    row.eventId = target → row.matrixUserId = sender) :
    Ends (bridge cfg calls) {} t (· = w) (handleRedaction cfg room target) fun _ =>
      OthersStay sender w := by
  refine .bind (Q := fun _ => OthersStay sender w) (ends_statement ?_ ?_) fun r => ?_
  · intro order w' hstore id row hrow hne
    have hkept : (row.eventId == target) = false := by
      simpa using fun heq => hne (hown id row hrow heq)
    rw [hstore]
    exact Table.lookup_deleteWhere_of_not hkept hrow
  · intro w' hstore id row hrow _
    rw [hstore, hrow]
  · split
    · exact notify_remark.offQueue.keeps othersStay_of_sameQueue
    · exact .pure fun _ h => h

theorem handleEdit_others (hown : ∀ id row, w.store.outboundQueue.lookup id = some row →
    row.eventId = target → row.bodyText ≠ newBody → row.matrixUserId = sender) :
    Ends (bridge cfg calls) {} t (· = w) (handleEdit cfg room target newBody) fun _ =>
      OthersStay sender w := by
  refine .bind (Q := fun _ => OthersStay sender w) (ends_statement ?_ ?_) fun r => ?_
  · intro order w' hstore id row hrow hne
    rw [hstore]
    change (Table.modifyWhere _ _ w.store.outboundQueue).lookup id = some row
    rw [Table.lookup_modifyWhere, hrow, Option.map_some]
    by_cases htarget : row.eventId = target
    · have hbody : row.bodyText = newBody :=
        Decidable.byContradiction fun hbody => hne (hown id row hrow htarget hbody)
      rw [if_pos (beq_iff_eq.mpr htarget), ← hbody]
    · simp [htarget]
  · intro w' hstore id row hrow _
    rw [hstore, hrow]
  · split
    · exact notify_remark.offQueue.keeps othersStay_of_sameQueue
    · exact .pure fun _ h => h

theorem handleRedaction_cancels : Can (bridge cfg calls) {} t (handleRedaction cfg room target) w
    fun _ w' => w'.store.outboundQueue =
      w.store.outboundQueue.deleteWhere fun _ r => r.eventId == target := by
  refine .bind (may_perform .done trivial rfl ?_)
  cases hfound : (w.store.outboundQueue.findWhere fun _ r => r.eventId == target).isSome with
  | true =>
    simp only [StoreCmd.run, hfound]
    exact notify_can (fun _ _ _ => trivial) room unsentNotice fun w' hq => hq.rows
  | false =>
    simp only [StoreCmd.run, hfound]
    exact .pure rfl

theorem handleEdit_rewrites : Can (bridge cfg calls) {} t (handleEdit cfg room target newBody) w
    fun _ w' => w'.store.outboundQueue =
      w.store.outboundQueue.modifyWhere (fun _ r => r.eventId == target) fun r =>
        { r with bodyText := newBody } := by
  refine .bind (may_perform .done trivial rfl ?_)
  cases hfound : (w.store.outboundQueue.findWhere fun _ r => r.eventId == target).isSome with
  | true =>
    simp only [StoreCmd.run, hfound]
    exact notify_can (fun _ _ _ => trivial) room updatedNotice fun w' hq => hq.rows
  | false =>
    simp only [StoreCmd.run, hfound]
    exact .pure rfl

theorem processTransaction_one (ev : MatrixEvent) : processTransaction cfg { events := [ev] } =
    Act.andThen (handleEvent cfg ev) fun _ => Act.ok () := rfl

variable {ev : MatrixEvent}

theorem handleEvent_others (hev : ev.amends) (hown : isBridgeUser ev.sender ∨ ∀ id row,
      w.store.outboundQueue.lookup id = some row → ev.alters row → row.matrixUserId = ev.sender) :
    Ends (bridge cfg calls) {} t (· = w) (handleEvent cfg ev) fun _ => OthersStay ev.sender w := by
  have hself : ∀ w', w' = w → OthersStay ev.sender w w' := by
    rintro _ rfl id row hrow _
    exact hrow
  have hlike : handleEvent cfg ev = handleMessageLike cfg ev := by
    cases ev with
    | member => cases hev
    | _ => rfl
  rw [hlike]
  unfold handleMessageLike
  split
  · exact .pure hself
  · next hbridge =>
    have hown := hown.resolve_left hbridge
    match ev, hev with
    | .redaction _ _ none, _ => exact .pure hself
    | .redaction sender room (some redacted), _ =>
      exact .liftAlways (handleRedaction_others fun id row hrow heq =>
        hown id row hrow (beq_iff_eq.mpr heq))
    | .message sender room event body media (some (.replacement target newBody)), _ =>
      exact .liftAlways (handleEdit_others fun id row hrow heq hbody =>
        hown id row hrow (by simp [MatrixEvent.alters, heq, hbody]))

theorem handleEvent_alters (hev : ev.amends) (hbridge : isBridgeUser ev.sender = false) {id : Nat}
    {row : OutboundRow} (hrow : w.store.outboundQueue.lookup id = some row)
    (halters : ev.alters row) : Can (bridge cfg calls) {} t (handleEvent cfg ev) w fun _ w' =>
      w'.store.outboundQueue.lookup id ≠ some row := by
  match ev, hev with
  | .redaction sender room none, _ => cases halters
  | .redaction sender room (some redacted), _ =>
    have hprogram : handleEvent cfg (.redaction sender room (some redacted)) =
        Act.lift (handleRedaction cfg room redacted) := by
      simp only [handleEvent, handleMessageLike, hbridge]
      rfl
    rw [hprogram]
    refine .lift (handleRedaction_cancels.mono fun _ w' hqueue hkept => ?_)
    rw [hqueue] at hkept
    have hdeleted : (row.eventId == redacted) = false :=
      (Table.lookup_of_lookup_deleteWhere hkept).2
    have halters : (row.eventId == redacted) = true := halters
    rw [hdeleted] at halters
    cases halters
  | .message sender room event body media (some (.replacement target newBody)), _ =>
    have hprogram : handleEvent cfg (.message sender room event body media
        (some (.replacement target newBody))) = Act.lift (handleEdit cfg room target newBody) := by
      simp only [handleEvent, handleMessageLike, hbridge]
      rfl
    rw [hprogram]
    refine .lift (handleEdit_rewrites.mono fun _ w' hqueue hkept => ?_)
    obtain ⟨htarget, hbody⟩ := Bool.and_eq_true_iff.mp halters
    rw [hqueue, Table.lookup_modifyWhere, hrow, Option.map_some, if_pos htarget] at hkept
    have hsame : newBody = row.bodyText := congrArg (·.bodyText) (Option.some.inj hkept)
    rw [hsame, bne_self_eq_false] at hbody
    cases hbody

end

/-- Whatever becomes of it, a redaction or an edit changes no row but its sender's, if and only
if the rows it would cancel or rewrite are all the sender's, or the sender is not listened to. -/
theorem own_rows_iff (cfg : Config) (calls : Nat → Call) (w : World) (ev : MatrixEvent)
    (hev : ev.amends) :
    (∀ t r w', Eval (bridge cfg calls) {} t (processTransaction cfg { events := [ev] }) w r w' →
      OthersStay ev.sender w w') ↔
    isBridgeUser ev.sender ∨ ∀ id row, w.store.outboundQueue.lookup id = some row →
      ev.alters row → row.matrixUserId = ev.sender := by
  rw [processTransaction_one]
  constructor
  · intro hstay
    cases hbridge : isBridgeUser ev.sender with
    | true => exact .inl rfl
    | false =>
      refine .inr fun id row hrow halters => Decidable.byContradiction fun hne => ?_
      obtain ⟨r, w', he, hgone⟩ : Can (bridge cfg calls) {} 0 (handleEvent cfg ev) w fun _ w' =>
          w'.store.outboundQueue.lookup id ≠ some row :=
        handleEvent_alters hev hbridge hrow halters
      cases r with
      | ok _ =>
        exact hgone (hstay 0 _ w' (Eval.andThen_iff.mpr (.inl ⟨_, w', he, .pure⟩)) id row hrow hne)
      | error _ =>
        exact hgone (hstay 0 _ w' (Eval.andThen_iff.mpr (.inr ⟨_, he, rfl⟩)) id row hrow hne)
  · intro hown t r w' h
    have hall : Ends (bridge cfg calls) {} t (· = w)
        (Act.andThen (handleEvent cfg ev) fun _ => Act.ok ()) fun _ => OthersStay ev.sender w :=
      .andThenAlways (handleEvent_others hev hown) (fun _ => .pure fun _ h => h) fun _ h => h
    exact hall w r w' rfl h

/-- Alice has a message in the queue. -/
def queuedWorld : World where
  store :=
    { users := (∅ : Table _ _).insert "@a:localhost" ⟨"a@x", "token", "url"⟩
      outboundQueue := (∅ : Table _ _).insert 1
        { matrixUserId := "@a:localhost", roomId := "!r", eventId := "$m", bodyText := "Hello"
          lastRetryAt := 0, releaseAt := 60 }
      nextOutboundId := 2 }

/-- Alice takes it back herself: her row goes, and no row of another user can. -/
theorem own_rows_iff_own : (∀ t r w', Eval (bridge {} fun _ => .worker) {} t
    (processTransaction {} { events := [.redaction "@a:localhost" "!r" (some "$m")] })
    queuedWorld r w' → OthersStay "@a:localhost" queuedWorld w') ∧
    (replay (bridge {} fun _ => .worker) 0 [some .done, some (.id "$n")]
      (processTransaction {} { events := [.redaction "@a:localhost" "!r" (some "$m")] })
      queuedWorld).map (fun q => q.2.store.outboundQueue.lookup 1) = some none := by
  refine ⟨?_, by decide +kernel⟩
  exact (own_rows_iff {} _ queuedWorld (.redaction "@a:localhost" "!r" (some "$m")) rfl).mpr
    (.inr fun id row hrow _ => by
      cases List.mem_singleton.mp (AList.mem_lookup_iff.mp hrow)
      rfl)

/-- Bob redacts the event, and her message is not sent. -/
theorem redacted_by_another : ¬ ∀ t r w', Eval (bridge {} fun _ => .worker) {} t
    (processTransaction {} { events := [.redaction "@b:localhost" "!x" (some "$m")] })
    queuedWorld r w' → OthersStay "@b:localhost" queuedWorld w' := by
  intro hstay
  have hends : (replay (bridge {} fun _ => .worker) 0 [some .done, some (.id "$n")]
      (processTransaction {} { events := [.redaction "@b:localhost" "!x" (some "$m")] })
      queuedWorld).map (fun q => q.2.store.outboundQueue.lookup 1) = some none := by decide +kernel
  obtain ⟨⟨r, w'⟩, hreplay, hgone⟩ := Option.map_eq_some_iff.mp hends
  have hkept := hstay 0 r w' (eval_of_replay (replayMeets_of_forall (fun _ _ _ => trivial) _ _ _)
    hreplay) 1 _ rfl (by decide)
  rw [hgone] at hkept
  cases hkept

end JmapBridge
