import JmapBridge.Listing.Positional
import JmapBridge.Property.ShortPage

/-! The walk over the mailbox by position, while the mailbox changes between the batches. -/

namespace JmapBridge

open Effect Positional

/-- Whether the result of a batch declares the walk complete. -/
def complete : Except Err Bool → Bool
  | .ok more => !more
  | .error _ => false

/-- The batches after the first page, with the queries answered, the newest first; `true`
once a batch has found the end of the mailbox. Between the batches anything may happen that
leaves the position alone: mail arrives, is destroyed or moves out of the window. -/
inductive Batches (cfg : Config) (p : Poller) (calls : Nat → Call) (cap : Nat)
    (first : Query EmailId) (w₁ : World) : List (Query EmailId) → Bool → World → Prop
  | start : Batches cfg p calls cap first w₁ [first] (w₁.position p.user).isNone w₁
  | elsewhere {qs : List (Query EmailId)} {ended : Bool} {w w' : World} :
    Batches cfg p calls cap first w₁ qs ended w → w'.position p.user = w.position p.user →
      Batches cfg p calls cap first w₁ qs ended w'
  | batch {qs : List (Query EmailId)} {w w' : World} {s : String} {pos t : Nat}
    {r : Except Err Bool} {floor : Option Int} {ids : List EmailId} :
    Batches cfg p calls cap first w₁ qs false w → w.position p.user = some s →
      Rust.Str.parseUsize s.toList = some pos →
      Eval (bridge cfg calls) (capped cap) t (backfillBatch cfg p pos) w r w' →
      w'.pages = ⟨floor, some pos, ids⟩ :: w.pages →
      Batches cfg p calls cap first w₁ (⟨w.mail.results p.account floor, pos, ids⟩ :: qs)
        (complete r) w'
  | unanswered {qs : List (Query EmailId)} {w w' : World} {s : String} {pos t : Nat}
    {r : Except Err Bool} :
    Batches cfg p calls cap first w₁ qs false w → w.position p.user = some s →
      Rust.Str.parseUsize s.toList = some pos →
      Eval (bridge cfg calls) (capped cap) t (backfillBatch cfg p pos) w r w' →
      w'.pages = w.pages → Batches cfg p calls cap first w₁ qs (complete r) w'

/-- The server does not cut the page of the query short of the limit. -/
def Uncut (cfg : Config) (cap : Nat) (q : Query EmailId) : Prop :=
  (1 ≤ cfg.syncLimit ∧ cfg.syncLimit ≤ cap) ∨ q.held.length ≤ q.start + min cfg.syncLimit cap

/-- The store takes the position that is registered with the first page. -/
def Taken (p : Poller) (w w₁ : World) : Prop :=
  w.store.hasUser p.user ∧ ∀ s ∈ (w₁.saves p.user).head?, s.2 ≠ .failed

/-- No email moves in front of the position between a query and the next, no page is cut
short, and a walk over more than the first page is registered. -/
structure Steady (cfg : Config) (p : Poller) (cap : Nat) (w w₁ : World)
    (qs : List (Query EmailId)) : Prop where
  stays : qs.IsChain fun b a => Stays b.start a.held b.held
  uncut : ∀ q ∈ qs, Uncut cfg cap q
  taken : ∀ q ∈ qs.getLast?, q.held.length ≤ cfg.syncLimit ∨ Taken p w w₁

section

variable {cfg : Config} {p : Poller} {calls : Nat → Call} {cap t : Nat} {w w₁ w' : World}
variable {first : Query EmailId} {qs : List (Query EmailId)}

/-- The first page was asked for in the first world, which the second one follows. -/
structure FirstPage (cfg : Config) (p : Poller) (calls : Nat → Call) (cap : Nat)
    (first : Query EmailId) (w w₁ : World) : Prop where
  page : ∃ t r floor, Eval (bridge cfg calls) (capped cap) t (bootstrapPage cfg p) w r w₁ ∧
    w₁.pages = ⟨floor, none, first.got⟩ :: w.pages ∧ first.held = w.mail.results p.account floor
  start : first.start = 0

theorem page_uncut {q : Query EmailId} (hcut : Uncut cfg cap q)
    (hgot : q.got = (q.held.drop q.start).take (min cfg.syncLimit cap))
    (hshort : ¬ (cfg.syncLimit ≤ q.got.length ∧ q.got ≠ [])) :
    ∀ e ∈ q.held.drop q.start, e ∈ q.got := by
  have hlen := congrArg List.length hgot
  rw [List.length_take, List.length_drop] at hlen
  rw [← List.length_pos_iff] at hshort
  have hrest : q.held.length ≤ q.start + min cfg.syncLimit cap := by
    rcases hcut with ⟨hone, hle⟩ | hrest
    · omega
    · exact hrest
  intro e he
  rwa [hgot, page_eq_drop hrest]

theorem page_answered {q : Query EmailId} {n : Nat} (hgot : q.got = (q.held.drop q.start).take n) :
    ∀ e ∈ q.held.drop q.start, e ∈ q.got ∨ e ∈ q.held.drop (q.start + q.got.length) := by
  intro e he
  rw [hgot]
  exact mem_page_or_drop he

/-- What the walk owes at its position: everything was returned once the walk has ended,
and before that it is ahead of the stored position. -/
def Walked (p : Poller) (qs : List (Query EmailId)) (w : World) : Bool → Prop
  | true => Returned qs
  | false => ∀ s pos, w.position p.user = some s → Rust.Str.parseUsize s.toList = some pos →
    Outstanding qs pos

theorem Walked.of_saved {n : Nat} (h : Outstanding qs n)
    (hw : w.position p.user = some (toString n)) :
    Walked p qs w false := by
  intro s pos hs hpos
  rw [hw] at hs
  obtain rfl := Option.some.inj hs
  rwa [Rust.Str.parseUsize_toString hpos]

theorem Walked.of_returned {ended : Bool} (h : Returned qs) : Walked p qs w ended := by
  cases ended with
  | true => exact h
  | false => exact fun _ _ _ _ => h.outstanding

theorem Walked.of_position {ended : Bool} (h : Walked p qs w ended)
    (hw : w'.position p.user = w.position p.user) : Walked p qs w' ended := by
  cases ended with
  | true => exact h
  | false => exact fun s pos hs => h s pos (hw ▸ hs)

theorem FirstPage.walked (h : FirstPage cfg p calls cap first w w₁) (hcut : Uncut cfg cap first)
    (htaken : first.held.length ≤ cfg.syncLimit ∨ Taken p w w₁) :
    Walked p [first] w₁ (w₁.position p.user).isNone := by
  obtain ⟨t, r, floor, heval, hpages, hheld⟩ := h.page
  rcases bootstrapPage_eval heval with ⟨-, hsame⟩ | ⟨after, q, w₂, w₃, hw₂, hw₃, hpages', hd, hreg⟩
  · rw [hsame.pages] at hpages
    exact absurd hpages.symm (List.cons_ne_self _ _)
  · rw [hreg.pages, hpages', hw₂.pages] at hpages
    obtain ⟨hpage, -⟩ := List.cons.inj hpages
    obtain ⟨rfl, -, hids⟩ := Page.mk.inj hpage
    have hgot : first.got = (first.held.drop first.start).take (min cfg.syncLimit cap) := by
      have hd' := eq_of_beq hd
      rwa [hw₂.results, ← hheld, hids, Option.getD_none, ← h.start] at hd'
    by_cases hall : first.held.length ≤ first.start + min cfg.syncLimit cap
    · refine .of_returned (.first fun e he => ?_)
      rwa [hgot, page_eq_drop hall, h.start]
    · rw [h.start] at hall hgot
      have hle : cfg.syncLimit ≤ cap := by
        rcases hcut with hcut | hcut
        · exact hcut.2
        · rw [h.start] at hcut
          exact absurd hcut hall
      obtain ⟨huser, hsaves⟩ : Taken p w w₁ := htaken.resolve_left (by omega)
      have hfull : q.ids.length = cfg.syncLimit := by
        have hlen := congrArg List.length hgot
        rw [← hids] at hlen
        simp at hlen
        omega
      obtain ⟨a, hsaved, hposition⟩ := hreg.full hfull
      rw [hsaved] at hsaves
      have htook : a ≠ .failed ∧ w₃.store.hasUser p.user := by
        rw [hw₃.hasUser, hw₂.hasUser]
        exact ⟨hsaves _ rfl, huser⟩
      rw [if_pos htook] at hposition
      rw [hposition]
      refine .of_saved (.first fun e he => ?_) hposition
      have hanswered :=
        page_answered (n := min cfg.syncLimit cap) (by rwa [h.start]) e (by rwa [h.start])
      rwa [h.start, ← hids, hfull, Nat.zero_add, hids] at hanswered

theorem Batches.registered {s : String} (h : w₁.position p.user = some s) :
    Batches cfg p calls cap first w₁ [first] false w₁ := by
  have hstart : Batches cfg p calls cap first w₁ [first] (w₁.position p.user).isNone w₁ := .start
  rwa [h] at hstart

theorem Batches.ne_nil {ended : Bool} (h : Batches cfg p calls cap first w₁ qs ended w') :
    qs ≠ [] := by
  induction h with
  | start => exact List.cons_ne_nil _ _
  | elsewhere _ _ ih => exact ih
  | batch => exact List.cons_ne_nil _ _
  | unanswered _ _ _ _ _ ih => exact ih

theorem batch_walked {q : Query EmailId} {s : String} {r : Except Err Bool} {floor : Option Int}
    {ids : List EmailId} {a : Query EmailId} {pos : Nat} (h : Outstanding (a :: qs) pos)
    (heval : Eval (bridge cfg calls) (capped cap) t (backfillBatch cfg p pos) w r w')
    (hpages : w'.pages = ⟨floor, some pos, ids⟩ :: w.pages)
    (hq : q = ⟨w.mail.results p.account floor, pos, ids⟩) (hstays : Stays pos a.held q.held)
    (hcut : Uncut cfg cap q) (hs : w.position p.user = some s)
    (hpos : Rust.Str.parseUsize s.toList = some pos) :
    Walked p (q :: a :: qs) w' (complete r) := by
  rcases backfillBatch_eval heval with ⟨-, hsame⟩ | ⟨after, q', w₂, w₃, hw₂, hw₃, hpages',
    hd, hturn⟩
  · rw [hsame.pages] at hpages
    exact absurd hpages.symm (List.cons_ne_self _ _)
  · rw [hturn.pages, hpages', hw₂.pages] at hpages
    obtain ⟨hpage, -⟩ := List.cons.inj hpages
    obtain ⟨rfl, -, hids⟩ := Page.mk.inj hpage
    have hgot : q.got = (q.held.drop q.start).take (min cfg.syncLimit cap) := by
      have hd' := eq_of_beq hd
      rw [hw₂.results, hids, Option.getD_some] at hd'
      rw [hq]
      exact hd'
    have hstart : q.start = pos := by rw [hq]
    have hqids : q.got = q'.ids := by rw [hq, hids]
    have hahead : Outstanding (q :: a :: qs) (pos + q.got.length) := by
      refine Outstanding.query (by rwa [hstart]) (by rwa [hstart]) fun e he => ?_
      rw [← hstart]
      exact page_answered hgot e he
    have hagain : Outstanding (q :: a :: qs) pos := by
      refine Outstanding.query (by rwa [hstart]) (by rwa [hstart]) fun e he => .inr ?_
      rwa [← hstart]
    have hposition : w₃.position p.user = w.position p.user := hw₃.position.trans hw₂.position
    have hopen : Walked p (q :: a :: qs) w' false := by
      rcases hturn.position with hsame | ⟨-, hsaved⟩
      · intro s' pos' hs' hpos'
        rw [hsame, hposition, hs] at hs'
        obtain rfl := Option.some.inj hs'
        obtain rfl : pos = pos' := Option.some.inj (hpos.symm.trans hpos')
        exact hagain
      · rw [← hqids] at hsaved
        exact .of_saved hahead hsaved
    match r, hturn.more with
    | .error err, _ => exact hopen
    | .ok true, _ => exact hopen
    | .ok false, hmore =>
      have hshort := (hmore false rfl).not.mp Bool.false_ne_true
      rw [← hqids] at hshort
      exact Outstanding.last (by rwa [hstart]) (by rwa [hstart]) (page_uncut hcut hgot hshort)

theorem Batches.walked {ended : Bool} (hfirst : FirstPage cfg p calls cap first w w₁)
    (h : Batches cfg p calls cap first w₁ qs ended w') (hsteady : Steady cfg p cap w w₁ qs) :
    Walked p qs w' ended := by
  induction h with
  | start =>
    exact hfirst.walked (hsteady.uncut first List.mem_cons_self) (hsteady.taken first rfl)
  | elsewhere _ hw ih => exact (ih hsteady).of_position hw
  | @batch qs w₂ w₃ s pos t r floor ids hbatches hs hpos heval hpages ih =>
    obtain ⟨a, as, rfl⟩ := List.exists_cons_of_ne_nil hbatches.ne_nil
    obtain ⟨hstays, hchain⟩ := List.isChain_cons_cons.mp hsteady.stays
    have hbefore : Steady cfg p cap w w₁ (a :: as) :=
      ⟨hchain, fun q hq => hsteady.uncut q (List.mem_cons_of_mem _ hq), fun q hq =>
        hsteady.taken q (by rwa [List.getLast?_cons_cons])⟩
    exact batch_walked (ih hbefore s pos hs hpos) heval hpages rfl hstays
      (hsteady.uncut _ List.mem_cons_self) hs hpos
  | @unanswered qs w₂ w₃ s pos t r hbatches hs hpos heval hpages ih =>
    rcases backfillBatch_eval heval with ⟨⟨err, rfl⟩, hsame⟩ | ⟨_, q, _, _, hw₂, -, hpages',
      -, hturn⟩
    · exact (ih hsteady).of_position hsame.position
    · rw [hturn.pages, hpages', hw₂.pages] at hpages
      exact absurd hpages (List.cons_ne_self _ _)

end

/-- A walk that is declared complete has returned every email that was in the window at each
of its queries, if no email moved in front of its position from one query to the next, no
page was cut short of the limit, and the store took the position registered with the first
page. -/
theorem walk_returns_what_stays {cfg : Config} {p : Poller} {calls : Nat → Call} {cap : Nat}
    {w w₁ w' : World} {first : Query EmailId} {qs : List (Query EmailId)}
    (hfirst : FirstPage cfg p calls cap first w w₁)
    (hbatches : Batches cfg p calls cap first w₁ qs true w') (hsteady : Steady cfg p cap w w₁ qs)
    {e : EmailId} (he : ∀ q ∈ qs, e ∈ q.held) : ∃ q ∈ qs, e ∈ q.got :=
  hbatches.walked hfirst hsteady e he

/-- The world that the answers lead to. -/
def World.after {α : Type} (w : World) (cs : List (Option Answer)) (x : Prog Op α) : World :=
  ((replay (bridge pairs idle) 0 cs x w).map Prod.snd).getD w

theorem eval_after {α : Type} {x : Prog Op (Except Err α)} {cs : List (Option Answer)} {w : World}
    {a : α} {cap : Nat} (hD : ReplayMeets (bridge pairs idle) (capped cap) 0 cs x w)
    (h : (replay (bridge pairs idle) 0 cs x w).map (fun r => r.1.toOption) = some (some a)) :
    Eval (bridge pairs idle) (capped cap) 0 x w (.ok a) (w.after cs x) := by
  obtain ⟨⟨b | b, w'⟩, hreplay, hb⟩ := Option.map_eq_some_iff.mp h
  · cases hb
  · obtain rfl : b = a := Option.some.inj hb
    have hafter : w.after cs x = w' := by rw [World.after, hreplay]; rfl
    rw [hafter]
    exact eval_of_replay hD hreplay

/-- Other mail in the window. -/
def World.mailing (w : World) (ids : List EmailId) : World :=
  { w with mail := { w.mail with results := fun _ _ => ids } }

def fiveIds : List EmailId := ["e1", "e2", "e3", "e4", "e5"]

def owner : Poller := ⟨"@a:localhost", "a"⟩

def batchAt (pos : Nat) : Prog Op (Except Err Bool) := backfillBatch pairs owner pos

/-- A page of a batch, which is saved if it is full. -/
def pageOf (ids : List EmailId) : List (Option Answer) :=
  some (.reply (.queried { ids })) ::
    if ids.isEmpty then []
    else some (.reply (.emails [])) :: if ids.length < 2 then [] else [some .done]

/-- The first page is `e1` and `e2`, and the batch at 2 finds `e3`. -/
theorem walk_returns_what_stays_three :
    ∃ qs w', Batches pairs owner idle 5 ⟨["e1", "e2", "e3"], 0, ["e1", "e2"]⟩
      (threeEmails.after fullPage bootstrapping) qs true w' ∧ ∃ q ∈ qs, "e3" ∈ q.got := by
  let w₁ := threeEmails.after fullPage bootstrapping
  have hbootstrap : Eval (bridge pairs idle) (capped 5) 0 bootstrapping threeEmails (.ok (.inr "s"))
      w₁ := eval_after (by decide +kernel) (by decide +kernel)
  have hposition : w₁.position owner.user = some "2" := by decide +kernel
  have hbatch : Eval (bridge pairs idle) (capped 5) 0 (batchAt 2) w₁ (.ok false)
      (w₁.after (pageOf ["e3"]) (batchAt 2)) := eval_after (by decide +kernel) (by decide +kernel)
  have hpage :
      (w₁.after (pageOf ["e3"]) (batchAt 2)).pages = ⟨none, some 2, ["e3"]⟩ :: w₁.pages := by
    decide +kernel
  have hfirst : FirstPage pairs owner idle 5 ⟨["e1", "e2", "e3"], 0, ["e1", "e2"]⟩ threeEmails w₁ :=
    ⟨⟨0, _, none, hbootstrap, by decide +kernel, rfl⟩, rfl⟩
  have hwalk : Batches pairs owner idle 5 ⟨["e1", "e2", "e3"], 0, ["e1", "e2"]⟩ w₁
      [⟨["e1", "e2", "e3"], 2, ["e3"]⟩, ⟨["e1", "e2", "e3"], 0, ["e1", "e2"]⟩] true
      (w₁.after (pageOf ["e3"]) (batchAt 2)) :=
    .batch (.registered hposition) hposition (by decide +kernel) hbatch hpage
  have hsteady : Steady pairs owner 5 threeEmails w₁
      [⟨["e1", "e2", "e3"], 2, ["e3"]⟩, ⟨["e1", "e2", "e3"], 0, ["e1", "e2"]⟩] := by
    refine ⟨by simp [Stays.refl], by simp [Uncut, pairs], fun q _ => .inr ⟨by decide +kernel, ?_⟩⟩
    decide +kernel
  exact ⟨_, _, hwalk, walk_returns_what_stays hfirst hwalk hsteady (by simp)⟩

/-- `e1` is destroyed after the first page, which moves `e3` in front of the position. -/
theorem destroyed_email_hides_another :
    ∃ first w₁ qs w', FirstPage pairs owner idle 5 first (threeEmails.mailing fiveIds) w₁ ∧
      Batches pairs owner idle 5 first w₁ qs true w' ∧
      (∀ q ∈ qs, "e3" ∈ q.held) ∧ ∀ q ∈ qs, "e3" ∉ q.got := by
  let w := threeEmails.mailing fiveIds
  let w₁ := w.after fullPage bootstrapping
  let w₂ := w₁.mailing ["e2", "e3", "e4", "e5"]
  let w₃ := w₂.after (pageOf ["e4", "e5"]) (batchAt 2)
  have hbootstrap : Eval (bridge pairs idle) (capped 5) 0 bootstrapping w (.ok (.inr "s")) w₁ :=
    eval_after (by decide +kernel) (by decide +kernel)
  have hbatch : Eval (bridge pairs idle) (capped 5) 0 (batchAt 2) w₂ (.ok true) w₃ :=
    eval_after (by decide +kernel) (by decide +kernel)
  have hlast : Eval (bridge pairs idle) (capped 5) 0 (batchAt 4) w₃ (.ok false)
      (w₃.after (pageOf []) (batchAt 4)) := eval_after (by decide +kernel) (by decide +kernel)
  have hposition : w₁.position owner.user = some "2" := by decide +kernel
  have hmoved : w₃.position owner.user = some "4" := by decide +kernel
  refine ⟨⟨fiveIds, 0, ["e1", "e2"]⟩, w₁, [⟨["e2", "e3", "e4", "e5"], 4, []⟩,
    ⟨["e2", "e3", "e4", "e5"], 2, ["e4", "e5"]⟩, ⟨fiveIds, 0, ["e1", "e2"]⟩],
    w₃.after (pageOf []) (batchAt 4), ⟨⟨0, _, none, hbootstrap, by decide +kernel, rfl⟩, rfl⟩, ?_,
    by decide, by decide⟩
  have hfirst : Batches pairs owner idle 5 ⟨fiveIds, 0, ["e1", "e2"]⟩ w₁
      [⟨fiveIds, 0, ["e1", "e2"]⟩] false w₂ := (Batches.registered hposition).elsewhere rfl
  have hpage : w₃.pages = ⟨none, some 2, ["e4", "e5"]⟩ :: w₂.pages := by decide +kernel
  have hend : (w₃.after (pageOf []) (batchAt 4)).pages = ⟨none, some 4, []⟩ :: w₃.pages := by
    decide +kernel
  exact (hfirst.batch hposition (by decide +kernel) hbatch hpage).batch hmoved (by decide +kernel)
    hlast hend

end JmapBridge
