import JmapBridge.Property.Paging

/-! Where a page that is shorter than the limit is taken for the end of the mailbox. -/

namespace JmapBridge

open Effect

section

variable {cfg : Config} {p : Poller} {calls : Nat → Call} {t cap : Nat} {w w' : World}

theorem length_page (l : List EmailId) (pos limit cap : Nat) :
    ((l.drop pos).take (min limit cap)).length = min (min limit cap) (l.length - pos) := by
  simp

theorem bootstrap_registers_iff (hlimit : 1 ≤ cfg.syncLimit) (hw : w.trace = [])
    {r : Except Err (Option String ⊕ String)} {after : Option Int} {ids : List EmailId}
    (h : Eval (bridge cfg calls) (capped cap) t (bootstrapPage cfg p) w r w')
    (hpage : w'.pages = [⟨after, none, ids⟩]) :
    ((ids.length < (w.mail.results p.account after).length →
        w'.position p.user = some (toString ids.length)) ∧
      ∀ s ∈ w'.saves p.user, s.1 = toString ids.length) ↔
    ((w.mail.results p.account after).length ≤ min cfg.syncLimit cap ∨
      (cfg.syncLimit ≤ cap ∧ w.store.hasUser p.user ∧ ∀ s ∈ w'.saves p.user, s.2 ≠ .failed) ∨
      w.position p.user = some (toString (min cfg.syncLimit cap))) := by
  have hnone : w.pages = [] := by rw [World.pages, hw]; rfl
  have hunsaved : w.saves p.user = [] := by rw [World.saves, hw]; rfl
  rcases bootstrapPage_eval h with ⟨-, hsame⟩ | ⟨after', q, w₁, w₂, hw₁, hw₂, hpages, hd, hreg⟩
  · rw [hsame.pages, hnone] at hpage
    cases hpage
  · rw [hreg.pages, hpages, hw₁.pages, hnone] at hpage
    obtain ⟨rfl, rfl⟩ : after' = after ∧ q.ids = ids := by simpa using hpage
    have hids :
        q.ids = ((w.mail.results p.account after').drop 0).take (min cfg.syncLimit cap) := by
      have hd' := eq_of_beq hd
      rwa [hw₁.results] at hd'
    have hlen := congrArg List.length hids
    rw [length_page] at hlen
    have hposition : w₂.position p.user = w.position p.user := hw₂.position.trans hw₁.position
    have huser : w₂.store.hasUser p.user = w.store.hasUser p.user := hw₂.hasUser.trans hw₁.hasUser
    have hsaves : w₂.saves p.user = [] := (hw₂.saves.trans hw₁.saves).trans hunsaved
    by_cases hfull : q.ids.length = cfg.syncLimit
    · obtain ⟨a, hsaved, hmoved⟩ := hreg.full hfull
      rw [hsaves] at hsaved
      rw [hposition, huser] at hmoved
      have hle : cfg.syncLimit ≤ cap := by omega
      have hmin : min cfg.syncLimit cap = cfg.syncLimit := Nat.min_eq_left hle
      rw [hfull, hmin, hsaved, hmoved]
      by_cases htaken : a ≠ .failed ∧ w.store.hasUser p.user
      · simp [hle, htaken]
      · have hrefused : ¬ (w.store.hasUser p.user ∧ a ≠ .failed) := fun h => htaken ⟨h.2, h.1⟩
        simp only [if_neg htaken, List.mem_singleton, forall_eq, hle, hrefused, and_true, and_false,
          false_or]
        rw [imp_iff_not_or, Nat.not_lt]
    · obtain ⟨hsaved, hmoved⟩ := hreg.short hfull
      rw [hsaved, hsaves, hmoved, hposition]
      by_cases hrest : q.ids.length < (w.mail.results p.account after').length
      · have hcap : ¬ cfg.syncLimit ≤ cap := by omega
        have hall : ¬ (w.mail.results p.account after').length ≤ min cfg.syncLimit cap := by omega
        have hk : q.ids.length = min cfg.syncLimit cap := by omega
        rw [hk] at hrest ⊢
        simp [hrest, hcap, hall]
      · have hall : (w.mail.results p.account after').length ≤ min cfg.syncLimit cap := by omega
        simp [hrest, hall]

theorem batch_ends_iff (hlimit : 1 ≤ cfg.syncLimit) (hw : w.trace = []) {pos : Nat} {more : Bool}
    {after : Option Int} {ids : List EmailId}
    (h : Eval (bridge cfg calls) (capped cap) t (backfillBatch cfg p pos) w (.ok more) w')
    (hpage : w'.pages = [⟨after, some pos, ids⟩]) :
    (more = false → (w.mail.results p.account after).length ≤ pos + ids.length) ↔
      (cfg.syncLimit ≤ cap ∨ (w.mail.results p.account after).length ≤ pos + cap) := by
  have hnone : w.pages = [] := by rw [World.pages, hw]; rfl
  rcases backfillBatch_eval h with ⟨⟨err, he⟩, -⟩ | ⟨after', q, w₁, w₂, hw₁, -, hpages, hd, hturn⟩
  · cases he
  · rw [hturn.pages, hpages, hw₁.pages, hnone] at hpage
    obtain ⟨rfl, rfl⟩ : after' = after ∧ q.ids = ids := by simpa using hpage
    have hids : q.ids =
        ((w.mail.results p.account after').drop pos).take (min cfg.syncLimit cap) := by
      have hd' := eq_of_beq hd
      rwa [hw₁.results] at hd'
    have hlen := congrArg List.length hids
    rw [length_page] at hlen
    have hmore : more = false ↔ q.ids.length < cfg.syncLimit := by
      have hiff := hturn.more more rfl
      rw [← List.length_pos_iff] at hiff
      cases more with
      | true =>
        have := hiff.mp rfl
        simp
        omega
      | false =>
        have hnot : ¬ (cfg.syncLimit ≤ q.ids.length ∧ 0 < q.ids.length) := fun h => by
          cases hiff.mpr h
        simp
        omega
    rw [hmore]
    omega

end

/-- Every page that the server cuts short of the limit is taken for the end of the mailbox:
the first page registers a walk over what follows it, and a batch ends the walk only at the
end, exactly where the server's cap does not come into play. -/
theorem short_page_is_end_iff {cfg : Config} {p : Poller} {calls : Nat → Call} {t cap : Nat}
    {w : World} (hlimit : 1 ≤ cfg.syncLimit) (hw : w.trace = []) :
    (∀ r w' after ids, Eval (bridge cfg calls) (capped cap) t (bootstrapPage cfg p) w r w' →
      w'.pages = [⟨after, none, ids⟩] →
      (((ids.length < (w.mail.results p.account after).length →
          w'.position p.user = some (toString ids.length)) ∧
        ∀ s ∈ w'.saves p.user, s.1 = toString ids.length) ↔
      ((w.mail.results p.account after).length ≤ min cfg.syncLimit cap ∨
        (cfg.syncLimit ≤ cap ∧ w.store.hasUser p.user ∧ ∀ s ∈ w'.saves p.user, s.2 ≠ .failed) ∨
        w.position p.user = some (toString (min cfg.syncLimit cap))))) ∧
    ∀ pos more w' after ids,
      Eval (bridge cfg calls) (capped cap) t (backfillBatch cfg p pos) w (.ok more) w' →
      w'.pages = [⟨after, some pos, ids⟩] →
      ((more = false → (w.mail.results p.account after).length ≤ pos + ids.length) ↔
        (cfg.syncLimit ≤ cap ∨ (w.mail.results p.account after).length ≤ pos + cap)) :=
  ⟨fun _ _ _ _ h hpage => bootstrap_registers_iff hlimit hw h hpage,
    fun _ _ _ _ _ h hpage => batch_ends_iff hlimit hw h hpage⟩

/-- Two emails a page. -/
def pairs : Config where
  syncLimit := 2

/-- A user with three emails. -/
def threeEmails : World where
  store := { users := (∅ : Sql.Table _ _).insert "@a:localhost" ⟨"a", "token", "url"⟩ }
  mail := { results := fun _ _ => ["e1", "e2", "e3"] }

def bootstrapping : Prog Op (Except Err (Option String ⊕ String)) :=
  bootstrapPage pairs ⟨"@a:localhost", "a"⟩

def batching : Prog Op (Except Err Bool) := backfillBatch pairs ⟨"@a:localhost", "a"⟩ 0

def idle (_ : Nat) : Call := .worker

/-- The server returns a full first page. -/
def fullPage : List (Option Answer) :=
  [some (.reply (.queried { ids := ["e1", "e2"] })), some .done, some .done,
    some (.reply (.state "s")), some (.reply (.emails []))]

/-- The server returns one email, which is less than the limit. -/
def shortPage : List (Option Answer) :=
  [some (.reply (.queried { ids := ["e1"] })), some .done, some (.reply (.state "s")),
    some (.reply (.emails []))]

theorem short_page_is_end_iff_full : ∃ r w',
    Eval (bridge pairs idle) (capped 5) 0 bootstrapping threeEmails r w' ∧
      w'.position "@a:localhost" = some "2" := by
  have hends : (replay (bridge pairs idle) 0 fullPage bootstrapping threeEmails).map
      (fun r => (r.2.pages, r.2.saves "@a:localhost")) =
        some ([⟨none, none, ["e1", "e2"]⟩], [("2", .done)]) := by decide +kernel
  have hmeets :
      ReplayMeets (bridge pairs idle) (capped 5) 0 fullPage bootstrapping threeEmails := by
    decide +kernel
  obtain ⟨⟨r, w'⟩, hreplay, hw'⟩ := Option.map_eq_some_iff.mp hends
  obtain ⟨hpages, hsaves⟩ := Prod.mk.inj hw'
  have heval := eval_of_replay hmeets hreplay
  have hiff := (short_page_is_end_iff (by decide) rfl).1 r w' none ["e1", "e2"] heval hpages
  have hcond := hiff.mpr (.inr (.inl ⟨by decide, by decide +kernel, by simp [hsaves]⟩))
  exact ⟨r, w', heval, hcond.1 (by decide)⟩

/-- The batch from the start finds one email as well. -/
def shortBatch : List (Option Answer) :=
  [some (.reply (.queried { ids := ["e1"] })), some (.reply (.emails []))]

/-- With a cap of one email a page, the first page registers no walk, and a batch from there
ends the walk while two emails remain. -/
theorem short_page_drops_the_rest :
    (∃ r w', Eval (bridge pairs idle) (capped 1) 0 bootstrapping threeEmails r w' ∧
      w'.pages = [⟨none, none, ["e1"]⟩] ∧ w'.position "@a:localhost" = none) ∧
    ∃ w', Eval (bridge pairs idle) (capped 1) 0 batching threeEmails (.ok false) w' ∧
      w'.pages = [⟨none, some 0, ["e1"]⟩] := by
  have hfirst : (replay (bridge pairs idle) 0 shortPage bootstrapping threeEmails).map
      (fun r => (r.2.pages, r.2.position "@a:localhost")) =
        some ([⟨none, none, ["e1"]⟩], none) := by decide +kernel
  have hmeets : ReplayMeets (bridge pairs idle) (capped 1) 0 shortPage bootstrapping
      threeEmails := by decide +kernel
  have hbatch : (replay (bridge pairs idle) 0 shortBatch batching threeEmails).map
      (fun r => (r.1.toOption, r.2.pages)) = some (some false, [⟨none, some 0, ["e1"]⟩]) := by
    decide +kernel
  have hmeets' : ReplayMeets (bridge pairs idle) (capped 1) 0 shortBatch batching threeEmails := by
    decide +kernel
  obtain ⟨⟨r, w'⟩, hreplay, hw'⟩ := Option.map_eq_some_iff.mp hfirst
  obtain ⟨⟨b | b, w₂⟩, hreplay', hw₂⟩ := Option.map_eq_some_iff.mp hbatch
  · cases (Prod.mk.inj hw₂).1
  · obtain rfl : b = false := Option.some.inj (Prod.mk.inj hw₂).1
    exact ⟨⟨r, w', eval_of_replay hmeets hreplay, Prod.mk.inj hw'⟩,
      w₂, eval_of_replay hmeets' hreplay', (Prod.mk.inj hw₂).2⟩

end JmapBridge
