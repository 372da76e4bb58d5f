import JmapBridge.Effect.Eval
import JmapBridge.Model.Inbound
import JmapBridge.Model.Exec

/-! The pages of `Email/query` and the position that the walk over them keeps. -/

namespace JmapBridge

open Effect

/-- A page that the mail server returned: its floor, its position, and its ids. -/
structure Page where
  after : Option Int
  position : Option Nat
  ids : List EmailId
deriving DecidableEq

def Record.page (r : Record) : Option Page :=
  match r.cmd, r.answer with
  | .jmap _ (.queryEmail after position _), .reply (.queried q) => some ⟨after, position, q.ids⟩
  | _, _ => none

/-- The pages returned so far, the newest first. -/
def World.pages (w : World) : List Page := w.trace.filterMap Record.page

/-- The stored position of the user's walk. -/
def World.position (w : World) (user : UserId) : Option String :=
  w.store.jmapState.lookup (user, .backfillPosition)

/-- A position that was to be saved, and the answer of the store. -/
def Record.saving (user : UserId) (r : Record) : Option (String × Answer) :=
  match r.cmd with
  | .store (.saveJmapState u .backfillPosition v) => if u = user then some (v, r.answer) else none
  | _ => none

def World.saves (w : World) (user : UserId) : List (String × Answer) :=
  w.trace.filterMap (Record.saving user)

/-- The server returns at most `cap` ids, and no fewer than it has below that and the limit. -/
def Cmd.capped (cap : Nat) (c : Cmd) (a : Answer) (w : World) : Bool :=
  match c, a with
  | .jmap account (.queryEmail after position limit), .reply (.queried q) =>
    q.ids == ((w.mail.results account after).drop (position.getD 0)).take (min limit cap)
  | _, _ => true

def capped (cap : Nat) : Discipline Op World Answer Env where
  step _ _ o a w := o.cmd.capped cap a w

instance decidableCapped (cap t : Nat) (β : Type) (o : Op β) (a : Answer) (w : World) :
    Decidable ((capped cap).step t o a w) :=
  inferInstanceAs (Decidable (o.cmd.capped cap a w = true))

/-- The commands that neither ask for a page nor touch the position of the walk. -/
def Cmd.offWalk (user : UserId) : Cmd → Bool
  | jmap _ (.queryEmail _ _ _) => false
  | store (.saveJmapState u key _) => u != user || key != .backfillPosition
  | store (.deleteJmapState u key) => u != user || key != .backfillPosition
  | _ => true

section

variable {cfg : Config} {p : Poller} {t : Nat} {w w' : World} {user : UserId} {α : Type}

theorem InboundCmd.offWalk {I : EmailId → Prop} {c : Cmd} (h : InboundCmd p I c) :
    c.offWalk p.user := by
  cases h with
  | saveState k v hk =>
    have hne : k ≠ .backfillPosition := fun he => by simp [he, StateKey.ofWalk] at hk
    simp [Cmd.offWalk, hne]
  | deleteState k hk =>
    have hne : k ≠ .backfillPosition := fun he => by simp [he, StateKey.ofWalk] at hk
    simp [Cmd.offWalk, hne]
  | _ => rfl

/-- Nothing of the user's walk has changed, apart from the pages returned. -/
structure Unmoved (user : UserId) (w w' : World) : Prop where
  position : w'.position user = w.position user
  saves : w'.saves user = w.saves user
  results : w'.mail.results = w.mail.results
  hasUser : w'.store.hasUser user = w.store.hasUser user

structure Unaffected (user : UserId) (w w' : World) : Prop extends Unmoved user w w' where
  pages : w'.pages = w.pages

theorem Unmoved.trans {w₁ w₂ w₃ : World} (h : Unmoved user w₁ w₂) (h' : Unmoved user w₂ w₃) :
    Unmoved user w₁ w₃ :=
  ⟨h'.position.trans h.position, h'.saves.trans h.saves, h'.results.trans h.results,
    h'.hasUser.trans h.hasUser⟩

theorem Unaffected.refl : Unaffected user w w := ⟨⟨rfl, rfl, rfl, rfl⟩, rfl⟩

theorem Unaffected.trans {w₁ w₂ w₃ : World} (h : Unaffected user w₁ w₂)
    (h' : Unaffected user w₂ w₃) :
    Unaffected user w₁ w₃ :=
  ⟨h.toUnmoved.trans h'.toUnmoved, h'.pages.trans h.pages⟩

theorem results_exec {c : Cmd} {a : Answer} {b : c.Ans} (h : exec t (.mk c) a w = some (b, w')) :
    w'.mail.results = w.mail.results := by
  cases c with
  | store c =>
    rcases exec_store h with ⟨order, -, -, rfl⟩ | ⟨-, -, rfl⟩ | ⟨-, -, rfl⟩
    · rfl
    · rfl
    · rfl
  | matrix c =>
    obtain ⟨⟨issued, rfl⟩, -⟩ := exec_matrix h
    rfl
  | jmap account c =>
    have heffect : ∀ r, (c.effect account r w.mail).results = w.mail.results := by
      intro r
      unfold JmapCmd.effect
      split <;> rfl
    obtain ⟨w₁, hp, rfl⟩ := exec_jmap_perform h
    cases a with
    | failed =>
      obtain ⟨rfl, rfl⟩ := Prod.mk.inj (Option.some.inj hp)
      rfl
    | cannotCalculateChanges =>
      obtain ⟨rfl, rfl⟩ := Prod.mk.inj (Option.some.inj hp)
      rfl
    | reply r =>
      obtain ⟨v, -, he⟩ := Option.map_eq_some_iff.mp hp
      obtain ⟨rfl, rfl⟩ := Prod.mk.inj he
      exact heffect r
    | lostReply r =>
      obtain ⟨v, -, he⟩ := Option.map_eq_some_iff.mp hp
      obtain ⟨rfl, rfl⟩ := Prod.mk.inj he
      exact heffect r
    | _ => cases hp
  | task c =>
    obtain ⟨-, -, rfl⟩ := exec_task h
    cases c <;> rfl

theorem position_exec {c : Cmd} {a : Answer} {b : c.Ans}
    (hc : ∀ c', c = .store c' → (Cmd.store c').offWalk user)
    (h : exec t (.mk c) a w = some (b, w')) : w'.position user = w.position user := by
  refine state_exec (fun v hv => ?_) (fun hd => ?_) h
  · have hoff := hc _ hv
    simp [Cmd.offWalk] at hoff
  · have hoff := hc _ hd
    simp [Cmd.offWalk] at hoff

theorem unaffected_exec {c : Cmd} {a : Answer} {b : c.Ans} (hc : c.offWalk user)
    (h : exec t (.mk c) a w = some (b, w')) : Unaffected user w w' := by
  have hpage : Record.page ⟨t, c, a⟩ = none := by
    unfold Record.page
    split
    · rename_i account after position limit q heq _
      obtain rfl : c = .jmap account (.queryEmail after position limit) := heq
      cases hc
    · rfl
  have hsaving : Record.saving user ⟨t, c, a⟩ = none := by
    unfold Record.saving
    split
    · rename_i u v heq
      obtain rfl : c = .store (.saveJmapState u .backfillPosition v) := heq
      have hne : u ≠ user := by simpa [Cmd.offWalk] using hc
      exact if_neg hne
    · rfl
  refine ⟨⟨position_exec (fun c' hc' => hc' ▸ hc) h, ?_, results_exec h, hasUser_exec h⟩, ?_⟩
  · rw [World.saves, exec_trace h, List.filterMap_cons_none hsaving, World.saves]
  · rw [World.pages, exec_trace h, List.filterMap_cons_none hpage, World.pages]

variable {calls : Nat → Call} {D : Discipline Op World Answer Env}

theorem unaffected_eval {x : Prog Op α} {a : α} (hx : Does (fun c => c.offWalk user) x)
    (h : Eval (bridge cfg calls) D t x w a w') : Unaffected user w w' := by
  refine h.only (P := fun w' => Unaffected user w w') (fun β o c w₁ b w₂ ho _ he h₁ => ?_) hx .refl
  obtain ⟨cmd⟩ := o
  exact h₁.trans (unaffected_exec ho he)

theorem query_eval {account : Account} {after : Option Int} {position : Option Nat} {limit : Nat}
    {r : Except Err QueryReply}
    (h : Eval (bridge cfg calls) D t (onJmap account (.queryEmail after position limit)) w r w') :
    Unmoved user w w' ∧
      ((∃ q, r = .ok q ∧ w'.pages = ⟨after, position, q.ids⟩ :: w.pages ∧
          D.step t (.mk (.jmap account (.queryEmail after position limit)))
            (.reply (.queried q)) w) ∨
        (∃ err, r = .error err) ∧ w'.pages = w.pages) := by
  obtain ⟨a, hd, hexec⟩ := Eval.call_iff.mp h
  have he :
      exec t (.mk (.jmap account (.queryEmail after position limit))) a w = some (r, w') := hexec
  refine ⟨⟨position_exec (fun c' hc' => by cases hc') he, ?_, results_exec he, hasUser_exec he⟩, ?_⟩
  · rw [World.saves, exec_trace he]
    rfl
  · rcases exec_reply he with ⟨reply, q, rfl, rfl, hv⟩ | ⟨hno, err, rfl⟩
    · cases reply with
      | queried q' =>
        obtain rfl := Option.some.inj hv
        refine .inl ⟨_, rfl, ?_, hd⟩
        rw [World.pages, exec_trace he]
        rfl
      | _ => cases hv
    · refine .inr ⟨⟨err, rfl⟩, ?_⟩
      have hpage : Record.page ⟨t, .jmap account (.queryEmail after position limit), a⟩ = none := by
        cases a with
        | reply r => exact absurd rfl (hno r)
        | _ => rfl
      rw [World.pages, exec_trace he, List.filterMap_cons_none hpage, World.pages]

/-- The position is saved unless the statement is refused or the user is not known. -/
theorem save_eval {v : String} {r : Except Err Unit}
    (h : Eval (bridge cfg calls) D t (onStore (.saveJmapState user .backfillPosition v)) w r w') :
    w'.pages = w.pages ∧ w'.mail.results = w.mail.results ∧
      (r = .ok () → w'.position user = some v) ∧
      ∃ a, w'.saves user = (v, a) :: w.saves user ∧
        w'.position user =
          if a ≠ .failed ∧ w.store.hasUser user then some v else w.position user := by
  obtain ⟨a, -, hexec⟩ := Eval.call_iff.mp h
  have he :
      exec t (.mk (.store (.saveJmapState user .backfillPosition v))) a w = some (r, w') := hexec
  have hrun : ∀ order, ((StoreCmd.saveJmapState user .backfillPosition v).run w.now order
      w.store).2.jmapState.lookup (user, .backfillPosition) =
        if w.store.hasUser user then some v else w.position user := by
    intro order
    simp only [StoreCmd.run, Store.referring]
    split
    · exact AList.lookup_insert _
    · rfl
  have hsaving : Record.saving user ⟨t, .store (.saveJmapState user .backfillPosition v), a⟩ =
      some (v, a) := if_pos rfl
  refine ⟨?_, results_exec he, fun hok => ?_, a, ?_, ?_⟩
  · rw [World.pages, exec_trace he]
    rfl
  · rcases exec_store he with ⟨order, -, hb, rfl⟩ | ⟨-, hb, -⟩ | ⟨-, hb, -⟩
    · have huser : w.store.hasUser user := by
        rw [hok] at hb
        simp only [StoreCmd.run, Store.referring] at hb
        split at hb
        · assumption
        · cases hb
      exact (hrun order).trans (if_pos huser)
    · rw [hok] at hb
      cases hb
    · rw [hok] at hb
      cases hb
  · rw [World.saves, exec_trace he, List.filterMap_cons_some hsaving, World.saves]
  · rcases exec_store he with ⟨order, ha, -, rfl⟩ | ⟨rfl, -, rfl⟩ | ⟨⟨s, rfl⟩, -, rfl⟩
    · have hne : a ≠ .failed := by
        rintro rfl
        rcases ha with ⟨ha, -⟩ | ha <;> cases ha
      rw [if_congr (and_iff_right hne) rfl rfl]
      exact hrun order
    · rfl
    · have hne : (Answer.lost s) ≠ .failed := fun h => by cases h
      rw [if_congr (and_iff_right hne) rfl rfl]
      exact hrun []

theorem processAll_offWalk {emails : List Email} :
    Does (fun c => c.offWalk p.user) (processAll cfg p emails) := by
  refine .lift (Prog.only_closed.forEach emails fun email _ => ?_)
  obtain ⟨rest, heq, hrest⟩ : ∃ rest : Bridge Unit,
      processEmail cfg p email = Prog.bind (onTask (.enter email.id)) (fun _ => rest) ∧
        DoesInbound p (fun _ => True) rest := processEmail_enters fun _ _ => trivial
  have hone : Does (fun c => c.offWalk p.user) (processEmail cfg p email) := by
    rw [heq]
    exact .bind (.task rfl) fun _ => hrest.mono fun _ => InboundCmd.offWalk
  refine Does.bind (.result hone) fun r => ?_
  cases r with
  | ok _ => exact .pure
  | error _ => exact .task rfl

theorem finishPage_offWalk {ids : List EmailId} {newState : String} {hasMore : Bool} :
    Does (fun c => c.offWalk p.user) (finishPage cfg p ids newState hasMore) := by
  refine .andThen ?_ fun _ => ?_
  · rw [processPage]
    split
    · exact .ok
    · exact .andThen (.jmap rfl) fun _ => processAll_offWalk
  · split
    · exact .ok
    · exact .ok

theorem resolveBackfillCutoff_offWalk :
    Does (fun c => c.offWalk p.user) (resolveBackfillCutoff cfg p) := by
  have hcutoff : DoesInbound p (fun _ => True) (resolveBackfillCutoff cfg p) :=
    resolveBackfillCutoff_inbound
  exact hcutoff.mono fun _ => InboundCmd.offWalk

/-- A first page of the walk registers the limit if it is full, and nothing else. -/
structure Registers (cfg : Config) (user : UserId) (ids : List EmailId) (w w' : World) : Prop where
  pages : w'.pages = w.pages
  results : w'.mail.results = w.mail.results
  full : ids.length = cfg.syncLimit → ∃ a,
    w'.saves user = (toString cfg.syncLimit, a) :: w.saves user ∧
      w'.position user = if a ≠ .failed ∧ w.store.hasUser user then some (toString cfg.syncLimit)
        else w.position user
  short : ids.length ≠ cfg.syncLimit →
    w'.saves user = w.saves user ∧ w'.position user = w.position user

theorem registerBackfill_eval {ids : List EmailId} {r : Except Err Unit}
    (h : Eval (bridge cfg calls) D t (registerBackfill cfg p ids) w r w') :
    r = .ok () ∧ Registers cfg p.user ids w w' := by
  rw [registerBackfill] at h
  split at h
  case isTrue hfull =>
    obtain ⟨r', w₁, hsave, hrest⟩ := Eval.bind_iff.mp h
    obtain ⟨rfl, rfl⟩ := Eval.pure_iff.mp hrest
    obtain ⟨hpages, hresults, -, hsaved⟩ := save_eval hsave
    exact ⟨rfl, hpages, hresults, fun _ => hsaved, fun hshort => absurd hfull hshort⟩
  case isFalse hshort =>
    obtain ⟨rfl, rfl⟩ := Eval.ok_iff.mp h
    exact ⟨rfl, rfl, rfl, fun hfull => absurd hfull hshort, fun _ => ⟨rfl, rfl⟩⟩

theorem Registers.trans {ids : List EmailId} {w₁ w₂ w₃ : World}
    (h : Registers cfg user ids w₁ w₂) (h' : Unaffected user w₂ w₃) :
    Registers cfg user ids w₁ w₃ where
  pages := h'.pages.trans h.pages
  results := h'.results.trans h.results
  full hf := by rw [h'.saves, h'.position]; exact h.full hf
  short hs := by rw [h'.saves, h'.position]; exact h.short hs

/-- The first page of a walk either is not returned, or registers the walk if it is full. -/
theorem bootstrapPage_eval {r : Except Err (Option String ⊕ String)}
    (h : Eval (bridge cfg calls) D t (bootstrapPage cfg p) w r w') :
    ((∃ err, r = .error err) ∧ Unaffected p.user w w') ∨
      ∃ after q w₁ w₂, Unaffected p.user w w₁ ∧ Unmoved p.user w₁ w₂ ∧
        w₂.pages = ⟨after, none, q.ids⟩ :: w₁.pages ∧
        D.step t (.mk (.jmap p.account (.queryEmail after none cfg.syncLimit)))
          (.reply (.queried q)) w₁ ∧ Registers cfg p.user q.ids w₂ w' := by
  rcases Eval.andThen_iff.mp h with ⟨after, w₁, hcutoff, hrest⟩ | ⟨err, hcutoff, -⟩
  · obtain ⟨_, hcutoff, -⟩ := Eval.lift_iff.mp hcutoff
    have hw₁ : Unaffected p.user w w₁ := unaffected_eval resolveBackfillCutoff_offWalk hcutoff
    rcases Eval.andThen_iff.mp hrest with ⟨q, w₂, hquery, hrest⟩ | ⟨err, hquery, rfl⟩
    · obtain ⟨hmoved, ⟨q', hq, hpages, hd⟩ | ⟨⟨err, he⟩, -⟩⟩ := query_eval hquery
      · cases hq
        refine .inr ⟨after, q, w₁, w₂, hw₁, hmoved, hpages, hd, ?_⟩
        rcases Eval.andThen_iff.mp hrest with ⟨_, w₃, hregister, hrest⟩ | ⟨err, hregister, rfl⟩
        · have hregistered := (registerBackfill_eval hregister).2
          refine hregistered.trans (unaffected_eval (.andThen (.bestEffort (.store ?_)) fun _ =>
            .andThen (.jmap rfl) fun _ => finishPage_offWalk) hrest)
          simp [Cmd.offWalk]
        · exact (registerBackfill_eval hregister).2
      · cases he
    · obtain ⟨hmoved, ⟨q', hq, -⟩ | ⟨-, hpages⟩⟩ := query_eval hquery
      · cases hq
      · exact .inl ⟨⟨err, rfl⟩, hw₁.trans ⟨hmoved, hpages⟩⟩
  · obtain ⟨_, -, he⟩ := Eval.lift_iff.mp hcutoff
    cases he

/-- What a batch makes of the page it was returned. -/
structure Turns (cfg : Config) (user : UserId) (pos : Nat) (ids : List EmailId)
    (r : Except Err Bool) (w w' : World) : Prop where
  pages : w'.pages = w.pages
  results : w'.mail.results = w.mail.results
  more : ∀ b, r = .ok b → (b = true ↔ cfg.syncLimit ≤ ids.length ∧ ids ≠ [])
  saved : r = .ok true → w'.position user = some (toString (pos + ids.length))
  position : w'.position user = w.position user ∨
    cfg.syncLimit ≤ ids.length ∧ w'.position user = some (toString (pos + ids.length))

theorem Turns.of_unaffected {pos : Nat} {ids : List EmailId} {r : Except Err Bool}
    (h : Unaffected user w w') (hmore : ∀ b, r = .ok b → b = false ∧
      (cfg.syncLimit ≤ ids.length → ids = [])) : Turns cfg user pos ids r w w' where
  pages := h.pages
  results := h.results
  more b hb := by
    obtain ⟨rfl, hids⟩ := hmore b hb
    refine ⟨fun h => (by cases h), fun h => absurd (hids h.1) h.2⟩
  saved hr := by cases (hmore true hr).1
  position := .inl h.position

theorem batchEnd_eval {pos : Nat} {q : QueryReply} {r : Except Err Bool}
    (h : Eval (bridge cfg calls) D t (do
      if q.ids.isEmpty then pure false
      else do
        let emails ← fetchEmails p q.ids
        processAll cfg p emails
        if q.ids.length < cfg.syncLimit then pure false
        else do
          onStore (.saveJmapState p.user .backfillPosition (toString (pos + q.ids.length)))
          pure true : Bridge Bool) w r w') : Turns cfg p.user pos q.ids r w w' := by
  split at h
  case isTrue hempty =>
    obtain ⟨rfl, rfl⟩ := Eval.ok_iff.mp h
    refine .of_unaffected .refl fun b hb => ?_
    cases hb
    exact ⟨rfl, fun _ => List.isEmpty_iff.mp hempty⟩
  case isFalse hempty =>
    have hids : q.ids ≠ [] := fun hnil => hempty (List.isEmpty_iff.mpr hnil)
    rcases Eval.andThen_iff.mp h with ⟨emails, w₁, hfetch, hrest⟩ | ⟨err, hfetch, rfl⟩
    · have hw₁ : Unaffected p.user w w₁ := unaffected_eval (.jmap rfl) hfetch
      rcases Eval.andThen_iff.mp hrest with ⟨_, w₂, hall, hrest⟩ | ⟨err, hall, rfl⟩
      · have hw₂ : Unaffected p.user w w₂ := hw₁.trans (unaffected_eval processAll_offWalk hall)
        split at hrest
        case isTrue hshort =>
          obtain ⟨rfl, rfl⟩ := Eval.ok_iff.mp hrest
          refine .of_unaffected hw₂ fun b hb => ?_
          cases hb
          exact ⟨rfl, fun hfull => absurd hshort (Nat.not_lt.mpr hfull)⟩
        case isFalse hshort =>
          have hfull : cfg.syncLimit ≤ q.ids.length := Nat.not_lt.mp hshort
          have hsaved : ∀ {r' : Except Err Unit}, Eval (bridge cfg calls) D t
              (onStore (.saveJmapState p.user .backfillPosition (toString (pos + q.ids.length))))
              w₂ r' w' → w'.pages = w.pages ∧ w'.mail.results = w.mail.results ∧
                (r' = .ok () → w'.position p.user = some (toString (pos + q.ids.length))) ∧
                (w'.position p.user = w.position p.user ∨
                  w'.position p.user = some (toString (pos + q.ids.length))) := by
            intro r' hsave
            obtain ⟨hpages, hresults, hok, a, -, hposition⟩ := save_eval hsave
            refine ⟨hpages.trans hw₂.pages, hresults.trans hw₂.results, hok, ?_⟩
            rw [hposition, ← hw₂.position]
            split
            · exact .inr rfl
            · exact .inl rfl
          rcases Eval.andThen_iff.mp hrest with ⟨_, w₃, hsave, hrest⟩ | ⟨err, hsave, rfl⟩
          · obtain ⟨rfl, rfl⟩ := Eval.ok_iff.mp hrest
            obtain ⟨hpages, hresults, hok, hposition⟩ := hsaved hsave
            refine ⟨hpages, hresults, fun b hb => ?_, fun _ => hok rfl,
              hposition.imp id fun h => ⟨hfull, h⟩⟩
            cases hb
            exact ⟨fun _ => ⟨hfull, hids⟩, fun _ => rfl⟩
          · obtain ⟨hpages, hresults, -, hposition⟩ := hsaved hsave
            exact ⟨hpages, hresults, fun b hb => (by cases hb), fun hr => (by cases hr),
              hposition.imp id fun h => ⟨hfull, h⟩⟩
      · exact .of_unaffected (hw₁.trans (unaffected_eval processAll_offWalk hall)) fun b hb => by
          cases hb
    · exact .of_unaffected (unaffected_eval (.jmap rfl) hfetch) fun b hb => by cases hb

theorem backfillBatch_eval {pos : Nat} {r : Except Err Bool}
    (h : Eval (bridge cfg calls) D t (backfillBatch cfg p pos) w r w') :
    ((∃ err, r = .error err) ∧ Unaffected p.user w w') ∨
      ∃ after q w₁ w₂, Unaffected p.user w w₁ ∧ Unmoved p.user w₁ w₂ ∧
        w₂.pages = ⟨after, some pos, q.ids⟩ :: w₁.pages ∧
        D.step t (.mk (.jmap p.account (.queryEmail after (some pos) cfg.syncLimit)))
          (.reply (.queried q)) w₁ ∧ Turns cfg p.user pos q.ids r w₂ w' := by
  rcases Eval.andThen_iff.mp h with ⟨after, w₁, hcutoff, hrest⟩ | ⟨err, hcutoff, -⟩
  · obtain ⟨_, hcutoff, -⟩ := Eval.lift_iff.mp hcutoff
    have hw₁ : Unaffected p.user w w₁ := unaffected_eval resolveBackfillCutoff_offWalk hcutoff
    split at hrest
    · obtain ⟨rfl, rfl⟩ := Eval.fail_iff.mp hrest
      exact .inl ⟨⟨_, rfl⟩, hw₁⟩
    · rcases Eval.andThen_iff.mp hrest with ⟨q, w₂, hquery, hrest⟩ | ⟨err, hquery, rfl⟩
      · obtain ⟨hmoved, ⟨q', hq, hpages, hd⟩ | ⟨⟨err, he⟩, -⟩⟩ := query_eval hquery
        · cases hq
          exact .inr ⟨after, q, w₁, w₂, hw₁, hmoved, hpages, hd, batchEnd_eval hrest⟩
        · cases he
      · obtain ⟨hmoved, ⟨q', hq, -⟩ | ⟨-, hpages⟩⟩ := query_eval hquery
        · cases hq
        · exact .inl ⟨⟨err, rfl⟩, hw₁.trans ⟨hmoved, hpages⟩⟩
  · obtain ⟨_, -, he⟩ := Eval.lift_iff.mp hcutoff
    cases he

end

end JmapBridge
