import JmapBridge.Effect.Warrant
import JmapBridge.Model.Puppeting

/-! Whose token it is. A Matrix token is kept for a user, and used in the user's name, only if
it is the user's own, and it joins only rooms that the bot has invited that user to. -/

namespace JmapBridge

open Effect Sql

/-- A command of a run of the puppets, with what the bridge got for it. -/
structure PuppetDeed where
  task : Nat
  cmd : PuppetCmd
  result : cmd.Ans

abbrev PuppetDeeds := List PuppetDeed

/-- How `token` has come to be one of the user's: it was kept for the user from the start, the
homeserver told the user's own `login-matrix` whose it is, or the homeserver has issued it to the
user for the shared secret or for the user's password. -/
inductive Owns (calls : Nat → PuppetCall) (kept : Table UserId String) (deeds : PuppetDeeds)
    (user : UserId) (token : String) : Prop
  | kept (hkept : kept.lookup user = some token) : Owns calls kept deeds user token
  | shown {t : Nat} {ctx : CommandContext} (hcall : calls t = .loginMatrix ctx)
      (hsender : ctx.sender = user) (hbody : tokenOf ctx.body = some token)
      (hwhoami : ⟨t, .whoami token, .ok user⟩ ∈ deeds)
      (huser : ⟨t, .getUser user, some true⟩ ∈ deeds) : Owns calls kept deeds user token
  | minted {t : Nat} {config : PuppetConfig} (hcall : calls t = .autoPuppet config user)
      (hmints : config.mints user)
      (hmint : ⟨t, .mint user, some token⟩ ∈ deeds) : Owns calls kept deeds user token
  | issued {t : Nat} {password : String} (hcall : calls t = .provision user password)
      (hlogin : ⟨t, .loginPassword user password, some token⟩ ∈ deeds) :
      Owns calls kept deeds user token

/-- The homeserver has told task `t`, in a `/sync` answer for the user, that `bot` has invited the
user to the room. -/
def InvitedTo (deeds : PuppetDeeds) (t : Nat) (user : UserId) (token : String) (bot : UserId)
    (room : RoomId) : Prop :=
  ∃ since next invites events,
    ⟨t, .sync user token since, .batch next (some invites)⟩ ∈ deeds ∧
      (room, some events) ∈ invites ∧
      ⟨some "m.room.member", some user, some "invite", some bot⟩ ∈ events

/-- What a command with a token needs. -/
def PuppetDeed.Owned (calls : Nat → PuppetCall) (kept : Table UserId String) (bot : UserId)
    (deeds : PuppetDeeds) (d : PuppetDeed) : Prop :=
  match d.cmd with
  | .setToken user token => Owns calls kept deeds user token
  | .ensureRunning user token => Owns calls kept deeds user token
  | .sync user token _ => Owns calls kept deeds user token
  | .joinRoom token room =>
    ∃ user, Owns calls kept deeds user token ∧ InvitedTo deeds d.task user token bot room
  | _ => True

/-- The tokens in the store and those of the loops. -/
structure TokensOwned (calls : Nat → PuppetCall) (kept : Table UserId String) (bot : UserId)
    (w : PuppetWorld) (deeds : PuppetDeeds) : Prop where
  bot : w.botUserId = bot
  stored : ∀ user token, w.tokens.lookup user = some token → Owns calls kept deeds user token
  loops : ∀ i p, w.puppets.lookup i = some p → Owns calls kept deeds p.user p.token

variable {calls : Nat → PuppetCall} {kept : Table UserId String} {bot : UserId}
  {deeds : PuppetDeeds} {w w' : PuppetWorld} {t : Nat} {user : UserId} {token : String} {α : Type}

theorem Owns.lasting : Lasting fun deeds => Owns calls kept deeds user token := by
  intro n deeds h
  cases h with
  | kept hkept => exact .kept hkept
  | shown hcall hsender hbody hwhoami huser =>
    exact .shown hcall hsender hbody (List.mem_cons_of_mem _ hwhoami) (List.mem_cons_of_mem _ huser)
  | minted hcall hmints hmint => exact .minted hcall hmints (List.mem_cons_of_mem _ hmint)
  | issued hcall hlogin => exact .issued hcall (List.mem_cons_of_mem _ hlogin)

theorem invitedBy_iff {inviteRoom : Option (List StrippedEvent)} :
    invitedBy inviteRoom user bot ↔ ∃ events, inviteRoom = some events ∧
      ⟨some "m.room.member", some user, some "invite", some bot⟩ ∈ events := by
  cases inviteRoom with
  | none => simp [invitedBy]
  | some events =>
    have hevent : ∀ ev : StrippedEvent, (ev.type == some "m.room.member" &&
        ev.stateKey == some user && ev.membership == some "invite" &&
        ev.sender == some bot) = true ↔
        ev = ⟨some "m.room.member", some user, some "invite", some bot⟩ := by
      intro ev
      obtain ⟨type, stateKey, membership, sender⟩ := ev
      simp [and_assoc]
    simp only [invitedBy, Option.getD_some, List.any_eq_true, hevent, Option.some.injEq,
      exists_eq_left', exists_eq_right]

theorem TokensOwned.cons (h : TokensOwned calls kept bot w deeds) (d : PuppetDeed) :
    TokensOwned calls kept bot w (d :: deeds) :=
  ⟨h.bot, fun user token hl => Owns.lasting d deeds (h.stored user token hl),
    fun i p hl => Owns.lasting d deeds (h.loops i p hl)⟩

theorem TokensOwned.of_tables (h : TokensOwned calls kept bot w deeds)
    (hbot : w'.botUserId = w.botUserId) (htokens : w'.tokens = w.tokens)
    (hpuppets : w'.puppets = w.puppets) : TokensOwned calls kept bot w' deeds :=
  ⟨hbot.trans h.bot, fun user token hl => h.stored user token (htokens ▸ hl),
    fun i p hl => h.loops i p (hpuppets ▸ hl)⟩

theorem TokensOwned.puppet (h : TokensOwned calls kept bot w deeds) {i : Nat} {p : AutoAccept}
    (howns : Owns calls kept deeds p.user p.token) (hbot : w'.botUserId = w.botUserId)
    (htokens : w'.tokens = w.tokens) (hpuppets : w'.puppets = w.puppets.insert i p) :
    TokensOwned calls kept bot w' deeds := by
  refine ⟨hbot.trans h.bot, fun user token hl => h.stored user token (htokens ▸ hl),
    fun j p' hl => ?_⟩
  rw [hpuppets] at hl
  by_cases hj : j = i
  · subst hj
    rw [AList.lookup_insert] at hl
    obtain rfl := Option.some.inj hl
    exact howns
  · rw [AList.lookup_insert_ne hj] at hl
    exact h.loops j p' hl

theorem TokensOwned.dropped (h : TokensOwned calls kept bot w deeds) {i : Nat}
    {running : Table UserId Unit} {trace : List PuppetRecord} :
    TokensOwned calls kept bot
      { w with running := running, puppets := w.puppets.erase i, trace := trace } deeds := by
  refine ⟨h.bot, h.stored, fun j p hl => ?_⟩
  by_cases hj : j = i
  · subst hj
    have hnone : (w.puppets.erase j).lookup j = none := AList.lookup_erase ..
    exact absurd (hnone.symm.trans hl) (by simp)
  · exact h.loops j p ((AList.lookup_erase_ne hj).symm.trans hl)

theorem TokensOwned.exec {c : PuppetCmd} {a : PuppetAnswer} {b : c.Ans}
    (h : TokensOwned calls kept bot w deeds) (hd : PuppetDeed.Owned calls kept bot deeds ⟨t, c, b⟩)
    (he : puppetExec calls t (.mk c) a w = some (b, w')) : TokensOwned calls kept bot w' deeds := by
  cases c with
  | setToken user token =>
    rcases puppetExec_setToken he with ⟨-, -, rfl⟩ | ⟨err, -, -, rfl⟩
    · refine ⟨h.bot, fun v tok hl => ?_, h.loops⟩
      by_cases hv : v = user
      · subst hv
        obtain rfl : token = tok := Option.some.inj ((AList.lookup_insert ..).symm.trans hl)
        exact hd
      · exact h.stored v tok ((AList.lookup_insert_ne hv).symm.trans hl)
    · exact h.of_tables rfl rfl rfl
  | ensureRunning user token =>
    rcases puppetExec_ensureRunning he with ⟨-, rfl⟩ | ⟨i, -, -, rfl⟩
    · exact h.of_tables rfl rfl rfl
    · exact h.puppet (p := ⟨user, token, .spawned⟩) hd rfl rfl rfl
  | takeUp =>
    obtain ⟨hl, -, rfl⟩ := puppetExec_takeUp he
    have howns : Owns calls kept deeds b.1 b.2.1 := h.loops t _ hl
    exact h.puppet (p := ⟨b.1, b.2.1, .accepting⟩) howns rfl rfl rfl
  | sync user token since =>
    obtain ⟨-, ⟨-, rfl⟩ | ⟨-, rfl⟩⟩ := puppetExec_sync he
    · exact h.puppet (p := ⟨user, token, .leaving⟩) hd rfl rfl rfl
    · exact h.of_tables rfl rfl rfl
  | removeRunning user =>
    obtain rfl := puppetExec_removeRunning he
    exact h.dropped
  | _ => exact (by rw [puppetExec_apart rfl he]; exact h.of_tables rfl rfl rfl)

def ownerBook (calls : Nat → PuppetCall) (kept : Table UserId String) (bot : UserId) :
    Book (puppetSystem calls) PuppetDeed where
  entry t _ o _ b _ := match o, b with
    | .mk c, b => ⟨t, c, b⟩
  grant := PuppetDeed.Owned calls kept bot
  agrees := TokensOwned calls kept bot
  step := by
    intro t β o a b w w' deeds h hd he
    obtain ⟨c⟩ := o
    exact (h.exec hd he).cons _
  env := by
    intro e
    exact e.elim
  drop := by
    intro t w deeds h
    exact h.dropped

abbrev OwnerTriple (calls : Nat → PuppetCall) (kept : Table UserId String) (bot : UserId) (t : Nat)
    (P : PuppetDeeds → Prop) (x : Prog PuppetOp α) (Q : α → PuppetDeeds → Prop) : Prop :=
  Careful (ownerBook calls kept bot)
    ({} : Discipline PuppetOp PuppetWorld PuppetAnswer Empty) t P x Q

variable {P : PuppetDeeds → Prop}

theorem own_triple {c : PuppetCmd} (hP : Lasting P)
    (hc : ∀ deeds b, P deeds → PuppetDeed.Owned calls kept bot deeds ⟨t, c, b⟩) :
    OwnerTriple calls kept bot t P (onPuppet c) fun b deeds => P deeds ∧ ⟨t, c, b⟩ ∈ deeds :=
  .call hP (fun _ => hP.and (.mem _)) (fun deeds _ b _ h => hc deeds b h)
    fun _ _ _ _ h => ⟨hP _ _ h, List.mem_cons_self⟩

theorem own_ends {c : PuppetCmd} (hP : Lasting P)
    (hc : ∀ deeds b, P deeds → PuppetDeed.Owned calls kept bot deeds ⟨t, c, b⟩) :
    OwnerTriple calls kept bot t P (onPuppet c) fun _ _ => True :=
  .post (own_triple hP hc) fun _ _ _ => trivial

theorem own_stop : OwnerTriple calls kept bot t P (.pure () : Prog PuppetOp Unit) fun _ _ => True :=
  .forget (.pure (.const True) fun _ _ => trivial)

theorem own_free {c : PuppetCmd} (hc : ∀ deeds b, PuppetDeed.Owned calls kept bot deeds ⟨t, c, b⟩) :
    OwnerTriple calls kept bot t P (onPuppet c) fun _ _ => True :=
  .forget (own_ends (.const True) fun deeds b _ => hc deeds b)

theorem keep_triple {next : Except String Unit → Prog PuppetOp Unit}
    (howns : ∀ deeds, P deeds → Owns calls kept deeds user token)
    (hnext : ∀ r,
      OwnerTriple calls kept bot t (fun deeds => Owns calls kept deeds user token) (next r)
      fun _ _ => True) :
    OwnerTriple calls kept bot t P (Prog.bind (onPuppet (.setToken user token)) next) fun _ _ =>
      True := by
  refine .pre (.bind (own_triple Owns.lasting fun _ _ h => h) fun r => ?_) howns
  exact .pre (hnext r) fun _ h => h.1

theorem start_triple :
    OwnerTriple calls kept bot t (fun deeds => Owns calls kept deeds user token)
      (onPuppet (.ensureRunning user token)) fun _ _ => True :=
  own_ends Owns.lasting fun _ _ h => h

theorem loginMatrix_owned {ctx : CommandContext} (hcall : calls t = .loginMatrix ctx) :
    OwnerTriple calls kept bot t (fun _ => True) (loginMatrix ctx) fun _ _ => True := by
  have hsay :
    ∀ {P text}, OwnerTriple calls kept bot t P (onPuppet (.notify ctx.room text)) fun _ _ => True :=
    fun {_ _} => own_free fun _ _ => trivial
  refine .bind (R := fun _ _ => True) ?_ fun _ => ?_
  · split
    · exact own_free fun _ _ => trivial
    · exact own_stop
  · split
    · exact hsay
    case h_2 token hbody =>
      refine .bind (own_triple (c := .whoami token) (.const True) fun _ _ _ => trivial) fun r => ?_
      cases r with
      | error err => exact hsay
      | ok id =>
        show OwnerTriple calls kept bot t _ (if id = ctx.sender then _ else _) _
        by_cases hid : id = ctx.sender
        · subst hid
          rw [if_pos rfl]
          refine .bind (own_triple (c := .getUser ctx.sender) (.and (.const True) (.mem _))
            fun _ _ _ => trivial) fun found => ?_
          match found with
          | none => exact own_stop
          | some false => exact hsay
          | some true =>
            refine keep_triple (fun deeds h => .shown hcall rfl hbody h.1.2 h.2) fun r => ?_
            cases r with
            | error err => exact hsay
            | ok _ => exact .bind start_triple fun _ => hsay
        · rw [if_neg hid]
          exact hsay

theorem tryAutoDoublePuppet_owned {config : PuppetConfig}
    (hcall : calls t = .autoPuppet config user) :
    OwnerTriple calls kept bot t (fun _ => True) (tryAutoDoublePuppet config user) fun _ _ =>
      True := by
  unfold tryAutoDoublePuppet
  split
  case isFalse => exact own_stop
  case isTrue hmints =>
    refine .bind (own_free (c := .getToken user) fun _ _ => trivial) fun found => ?_
    split
    · exact own_stop
    · refine .bind (own_triple (c := .mint user) (.const True) fun _ _ _ => trivial)
        fun minted => ?_
      cases minted with
      | none => exact own_stop
      | some token =>
        refine keep_triple (fun deeds h => .minted hcall hmints h.2) fun r => ?_
        cases r with
        | error err => exact own_stop
        | ok _ => exact start_triple

theorem provisionPuppet_owned {password : String} (hcall : calls t = .provision user password) :
    OwnerTriple calls kept bot t (fun _ => True) (provisionPuppet user password) fun _ _ =>
      True := by
  refine .bind (own_triple (c := .loginPassword user password) (.const True) fun _ _ _ => trivial)
    fun r => ?_
  cases r with
  | none => exact own_stop
  | some token =>
    exact keep_triple (fun deeds h => .issued hcall h.2) fun _ => start_triple

theorem resumePuppet_owned :
    OwnerTriple calls kept bot t (fun _ => True) (resumePuppet user) fun _ _ => True := by
  have hread :
      OwnerTriple calls kept bot t (fun _ => True) (onPuppet (.getToken user)) fun found deeds =>
      ∀ token, found = some (some token) → Owns calls kept deeds user token := by
    refine .perform (.const True)
      (fun found n deeds h token heq => Owns.lasting n deeds (h token heq))
      (fun _ _ _ _ _ _ _ _ => trivial) fun deeds a found w w' _ hw he token heq => ?_
    have he : puppetExec calls t (.mk (.getToken user)) a w = some (found, w') := he
    have htoken := ((puppetExec_getToken he).2 token).mp heq
    exact Owns.lasting _ deeds (hw.stored user token htoken.2)
  refine .bind hread fun found => ?_
  match found with
  | some (some token) =>
    refine own_ends (fun n deeds h tok heq => Owns.lasting n deeds (h tok heq)) fun deeds _ h => ?_
    exact h token rfl
  | some none => exact own_stop
  | none => exact own_stop

theorem puppetTask_owned :
    OwnerTriple calls kept bot t (fun _ => True) puppetTask fun _ _ => True := by
  have htake : OwnerTriple calls kept bot t (fun _ => True) (onPuppet .takeUp) fun p deeds =>
      Owns calls kept deeds p.1 p.2.1 ∧ p.2.2 = bot := by
    refine .perform (.const True) (fun _ => Owns.lasting.and (.const _))
      (fun _ _ _ _ _ _ _ _ => trivial) fun deeds a p w w' _ hw he => ?_
    obtain ⟨hl, hbot, -⟩ := puppetExec_takeUp he
    exact ⟨Owns.lasting _ deeds (hw.loops t _ hl), hbot.trans hw.bot⟩
  refine .bind htake fun p => .bind (R := fun _ _ => True) ?_ fun _ => own_free fun _ _ => trivial
  obtain ⟨user, token, bot'⟩ := p
  by_cases hbot : bot' ≠ bot
  · exact .absurd fun _ h => hbot h.2
  obtain rfl : bot' = bot := Decidable.not_not.mp hbot
  refine .pre (A := fun deeds => Owns calls kept deeds user token) ?_ fun _ h => h.1
  have honce :
      ∀ since, OwnerTriple calls kept bot' t (fun deeds => Owns calls kept deeds user token)
      (acceptOnce user token bot' since) fun _ deeds => Owns calls kept deeds user token := by
    intro since
    refine .bind (own_triple Owns.lasting fun _ _ h => h) fun reply => ?_
    cases reply with
    | rejected => exact .pure (Owns.lasting.and (.mem _)) fun _ h => h.1
    | failed =>
      refine .pre ?_ fun deeds h => h.1
      refine .bind (.post (own_triple Owns.lasting fun _ _ _ => trivial) fun _ _ h => h.1)
        fun _ => ?_
      exact .pure Owns.lasting fun _ h => h
    | batch next invites =>
      have hbatch : Lasting fun deeds => Owns calls kept deeds user token ∧
          ⟨t, .sync user token since, .batch next invites⟩ ∈ deeds := Owns.lasting.and (.mem _)
      refine .bind (.post (own_triple hbatch fun _ _ _ => trivial) fun _ _ h => h.1) fun _ => ?_
      refine .bind (Careful.closed hbatch |>.forEach (invites.getD []) fun invite hinvite => ?_)
        fun _ => .pure hbatch fun _ h => h.1
      split
      case isTrue hinvited =>
        obtain ⟨rooms, rfl⟩ : ∃ rooms, invites = some rooms := by
          cases invites with
          | none => cases hinvite
          | some rooms => exact ⟨rooms, rfl⟩
        obtain ⟨events, hevents, hmem⟩ := invitedBy_iff.mp hinvited
        have hroom : (invite.1, some events) ∈ rooms := by rw [← hevents]; exact hinvite
        refine .post (own_triple hbatch fun deeds _ h => ?_) fun _ _ h => h.1
        exact ⟨user, h.1, since, next, rooms, events, h.2, hroom, hmem⟩
      case isFalse => exact .pure hbatch fun _ h => h
  exact .post ((Careful.closed Owns.lasting).loop fun since => honce since) fun _ _ _ => trivial

theorem program_owned (t : Nat) :
    OwnerTriple calls kept bot t (fun _ => True) ((calls t).program) fun _ _ => True := by
  cases hcall : calls t with
  | loginMatrix ctx => exact loginMatrix_owned hcall
  | autoPuppet config user => exact tryAutoDoublePuppet_owned hcall
  | provision user password => exact provisionPuppet_owned hcall
  | resume =>
    refine .bind (own_free fun _ _ => trivial) fun users => ?_
    cases users with
    | none => exact own_stop
    | some users =>
      exact Careful.closed (.const True) |>.forEach users fun _ _ => resumePuppet_owned
  | puppet => exact puppetTask_owned

/-- What the puppets did in a run, and what the bridge got for it. -/
def puppetDeeds (calls : Nat → PuppetCall) (es : List (Event PuppetAnswer Empty))
    (w : PuppetWorld) :
    PuppetDeeds := (ownerBook calls w.tokens w.botUserId).log es w

/-- Whatever logins, mintings and loops interleave, every token that is kept for a user or that a
loop uses in the user's name is the user's own, and a room is joined with it only when the
homeserver has shown the loop that the bot has invited the user there. -/
theorem puppet_tokens_are_own {w : PuppetWorld} (hw : w.puppets = ∅)
    {es : List (Event PuppetAnswer Empty)} {q : Pool PuppetOp PuppetWorld}
    (hrun : (puppetSystem calls).run es (Pool.boot w) = some q) :
    (∀ user token, q.world.tokens.lookup user = some token →
      Owns calls w.tokens (puppetDeeds calls es w) user token) ∧
    ∀ newer d older, puppetDeeds calls es w = newer ++ d :: older →
      PuppetDeed.Owned calls w.tokens w.botUserId older d := by
  have hstart : TokensOwned calls w.tokens w.botUserId w [] := by
    refine ⟨rfl, fun user token hl => .kept hl, fun i p hl => ?_⟩
    rw [hw] at hl
    exact absurd (AList.lookup_empty i |>.symm.trans hl) (by simp)
  have hend := Book.granted_of_run (B := ownerBook calls w.tokens w.botUserId) (D := {})
    (fun t => .pre (program_owned t) fun _ _ => trivial) hstart hrun (System.admits_free es _)
  exact ⟨hend.2.stored, hend.1⟩

/-- Alice shows her token, and the loop that it starts joins the room that the bot invites her
to. -/
def shownToken : Nat → PuppetCall
  | 0 => .loginMatrix { sender := "@alice:x", body := "login-matrix secret" }
  | _ => .puppet

def shownRun : List (Event PuppetAnswer Empty) :=
  [.start 0, .step 0 (.user "@alice:x"), .step 0 (.found true), .step 0 .done, .step 0 (.spawns 1),
    .step 0 .done, .start 1, .step 1 .done, .tau 1,
    .step 1 (.reply (.batch none (some [("!q", none), ("!r", some [
      ⟨some "m.room.member", some "@alice:x", some "invite", some "@_jmap_bot:localhost"⟩])]))),
    .step 1 .done, .step 1 .done]

theorem puppet_tokens_are_own_shown : ∃ newer d older,
    puppetDeeds shownToken shownRun {} = newer ++ d :: older ∧ d.cmd = .joinRoom "secret" "!r" ∧
      PuppetDeed.Owned shownToken ∅ "@_jmap_bot:localhost" older d ∧
      Owns shownToken ∅ (puppetDeeds shownToken shownRun {}) "@alice:x" "secret" := by
  have hends : (((puppetSystem shownToken).run shownRun (Pool.boot {})).map fun q =>
      q.world.tokens.lookup "@alice:x") = some (some "secret") := by decide +kernel
  have hjoined : (puppetDeeds shownToken shownRun {}).any (fun d =>
      d.cmd == .joinRoom "secret" "!r") := by decide +kernel
  obtain ⟨q, hq, hkept⟩ := Option.map_eq_some_iff.mp hends
  obtain ⟨d, hd, hcmd⟩ := List.any_eq_true.mp hjoined
  obtain ⟨newer, older, hsplit⟩ := List.append_of_mem hd
  have hown := puppet_tokens_are_own rfl hq
  exact ⟨newer, d, older, hsplit, eq_of_beq hcmd, hown.2 newer d older hsplit,
    hown.1 "@alice:x" "secret" hkept⟩

end JmapBridge
