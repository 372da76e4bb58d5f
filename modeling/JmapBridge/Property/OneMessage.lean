import JmapBridge.Property.Bridging

/-! At most one message per email. Of the `process_email` spans open on an email only the
oldest may find it unmapped, and only its task posts. -/

namespace JmapBridge

open Effect

/-- A message event with the body of `e`, sent whether or not the answer came back. -/
def posting (e : EmailId) (r : Record) : Bool :=
  match r.cmd, r.answer with
  | .matrix (.sendAsGhost _ _ (.message body) _), .id _ => body.origin == .email e
  | .matrix (.sendAsGhost _ _ (.message body) _), .lost _ => body.origin == .email e
  | _, _ => false

def World.posted (w : World) (e : EmailId) : Nat := w.trace.countP (posting e)

/-- The task whose span has been open on `e` for longest. -/
def World.opener (w : World) (e : EmailId) : Option Nat :=
  ((w.spans.filter fun s => s.2 == some e).getLast?).map (·.1)

/-- Task `t` has posted `e` and not mapped it yet. -/
def World.unsettled (w : World) (e : EmailId) (t : Nat) : Bool :=
  w.opener e == some t && (w.posted e != 0 && !w.store.mapped e)

/-- Unless the span of task `t` is the oldest, what is posted of `e` is mapped or not its own. -/
def Clean (e : EmailId) (t : Nat) (w : World) : Prop :=
  w.store.mapped e ∨ w.opener e ≠ some t ∨ w.posted e = 0

structure PostRely (e : EmailId) (t : Nat) (w w' : World) : Prop where
  mapped : w.store.mapped e → w'.store.mapped e
  opener : w.opener e = some t → w'.opener e = some t ∧ w'.posted e = w.posted e
  spans : w'.spans.count (t, some e) = w.spans.count (t, some e)
  clean : Clean e t w → Clean e t w'

def postContract (e : EmailId) : Contract World where
  inv := fun w => w.posted e ≤ 1 ∧ (w.posted e = 0 ∨ w.store.mapped e ∨ (w.opener e).isSome)
  rely := PostRely e
  idle := fun t w => w.spans.count (t, some e) = 0
  idle_stable := fun h hr => hr.spans.trans h
  refl := fun _ _ => ⟨id, fun h => ⟨h, rfl⟩, rfl, id⟩
  trans := by
    intro t a b c hab hbc
    refine ⟨fun h => hbc.mapped (hab.mapped h), fun h => ?_, hbc.spans.trans hab.spans,
      fun h => hbc.clean (hab.clean h)⟩
    obtain ⟨hb, hpb⟩ := hab.opener h
    obtain ⟨hc, hpc⟩ := hbc.opener hb
    exact ⟨hc, hpc.trans hpb⟩

/-- What a command must meet so that `e` stays posted once: the call that finds it unmapped
is the oldest one open on it; the answer to its message is not lost; and the mappings that
follow the message are saved. -/
def Cmd.orderly (e : EmailId) (t : Nat) (w : World) : Cmd → Answer → Bool
  | store (.hasMessageMapped i), .done => i != e || w.store.mapped e || w.opener e == some t
  | store (.hasMessageMapped i), .rows _ => i != e || w.store.mapped e || w.opener e == some t
  | matrix (.sendAsGhost _ _ (.message body) _), .lost _ => body.origin != .email e
  | store (.saveMessageMapping i _), .failed => i != e
  | store (.saveThreadMappingAtomic _ _ _ _), .failed => !w.unsettled e t
  | store (.saveThreadMappingAtomic _ _ _ _), .lost _ => !w.unsettled e t
  | _, _ => true

/-- The runs in which every command is `orderly` and no task is cancelled between the
message of `e` and its mapping. -/
def orderly (e : EmailId) : Discipline Op World Answer Env where
  step := fun t {_} o a w => o.cmd.orderly e t w a
  cancel := fun t w => w.unsettled e t = false

instance decidableOrderlyStep (e : EmailId) (t : Nat) (β : Type) (o : Op β) (a : Answer)
    (w : World) :
    Decidable ((orderly e).step t o a w) :=
  inferInstanceAs (Decidable (o.cmd.orderly e t w a = true))

instance decidableOrderly (e : EmailId) (ev : Event Answer Env) (q : Pool Op World) :
    Decidable ((orderly e).meets ev q) :=
  @Discipline.decidableMeets Op World Answer Env (orderly e) (fun _ _ => instDecidableTrue) _
    (fun t w => inferInstanceAs (Decidable (w.unsettled e t = false)))
    (fun _ _ => instDecidableTrue) ev q

/-- The commands that neither post `e` nor open or close a span on it. -/
def Cmd.apart (e : EmailId) : Cmd → Bool
  | task (.enter i) => i != some e
  | task (.leave i) => i != some e
  | matrix (.sendAsGhost _ _ (.message body) _) => body.origin != .email e
  | _ => true

section

variable {cfg : Config} {calls : Nat → Call} {e : EmailId} {t : Nat} {w w' : World} {α β : Type}

theorem posted_exec {c : Cmd} {a : Answer} {b : c.Ans} (h : exec t (.mk c) a w = some (b, w')) :
    w'.posted e = w.posted e + if posting e ⟨t, c, a⟩ then 1 else 0 := by
  rw [World.posted, exec_trace h, List.countP_cons, World.posted]

theorem posting_of_apart {c : Cmd} {a : Answer} (hc : c.apart e) :
    posting e ⟨t, c, a⟩ = false := by
  unfold posting
  split
  · simp_all [Cmd.apart]
  · simp_all [Cmd.apart]
  · rfl

def World.spansOn (w : World) (e : EmailId) : List (Nat × Option EmailId) :=
  w.spans.filter fun s => s.2 == some e

theorem opener_of_spansOn (h : w'.spansOn e = w.spansOn e) : w'.opener e = w.opener e := by
  change ((w'.spansOn e).getLast?).map (·.1) = ((w.spansOn e).getLast?).map (·.1)
  rw [h]

theorem count_of_spansOn (h : w'.spansOn e = w.spansOn e) (i : Nat) :
    w'.spans.count (i, some e) = w.spans.count (i, some e) := by
  have hcount : ∀ w : World, (w.spansOn e).count (i, some e) = w.spans.count (i, some e) :=
    fun w => List.count_filter (by simp)
  rw [← hcount w', h, hcount w]

theorem spansOn_apart {c : Cmd} {a : Answer} {b : c.Ans} (hc : c.apart e)
    (h : exec t (.mk c) a w = some (b, w')) : w'.spansOn e = w.spansOn e := by
  rw [World.spansOn, exec_spans h]
  cases c with
  | task c =>
    cases c with
    | enter i =>
      have hi : (i == some e) = false := by simpa [Cmd.apart] using hc
      simp [Cmd.spans, World.spansOn, hi]
    | leave i =>
      have hi : (i == some e) = false := by simpa [Cmd.apart] using hc
      rw [Cmd.spans, ← List.erase_filter, List.erase_of_not_mem]
      · rfl
      · simp [hi]
    | _ => rfl
  | _ => rfl

theorem opener_leave {i : Nat} (hi : i ≠ t) (h : w.opener e = some i)
    (hw : w'.spans = w.spans.erase (t, some e)) : w'.opener e = some i := by
  obtain ⟨s, hs, rfl⟩ := Option.map_eq_some_iff.mp h
  obtain ⟨l, hl⟩ := List.getLast?_eq_some_iff.mp hs
  have hne : s ≠ (t, some e) := by
    intro he
    exact hi (by rw [he])
  rw [World.opener, hw, ← List.erase_filter, hl]
  by_cases hm : (t, some e) ∈ l
  · rw [List.erase_append_left _ hm]
    simp
  · rw [List.erase_append_right _ hm, List.erase_cons_tail (by simpa using hne)]
    simp

theorem opener_enter (hw : w'.spans = (t, some e) :: w.spans) :
    w'.opener e = some ((w.opener e).getD t) := by
  rw [World.opener, hw, List.filter_cons_of_pos (by simp), List.getLast?_cons, World.opener]
  cases (w.spans.filter fun s => s.2 == some e).getLast? with
  | none => rfl
  | some s => rfl

theorem opener_drop (w : World) {i : Nat} (hi : i ≠ t) (h : w.opener e = some i) :
    (drop t w).opener e = some i := by
  obtain ⟨s, hs, rfl⟩ := Option.map_eq_some_iff.mp h
  obtain ⟨l, hl⟩ := List.getLast?_eq_some_iff.mp hs
  rw [World.opener]
  have hf : ((drop t w).spans.filter fun s => s.2 == some e) =
      (l ++ [s]).filter fun s => s.1 != t := by
    rw [← hl, List.filter_filter, drop, List.filter_filter]
    congr 1
    funext x
    exact Bool.and_comm ..
  rw [hf, List.filter_append, List.filter_cons_of_pos (by simpa using hi)]
  simp

/-- Task `t` is inside `process_email` for `e`. -/
def Inside (e : EmailId) (t : Nat) (w : World) : Prop := w.spans.count (t, some e) = 1

/-- The span of task `t` is the oldest on `e`, which has not been posted. -/
def Unposted (e : EmailId) (t : Nat) (w : World) : Prop :=
  Inside e t w ∧ w.opener e = some t ∧ w.posted e = 0

def Posted (e : EmailId) (t : Nat) (w : World) : Prop :=
  Inside e t w ∧ w.opener e = some t ∧ w.posted e = 1

def Mapped (e : EmailId) (t : Nat) (w : World) : Prop := Inside e t w ∧ w.store.mapped e

def Settled (e : EmailId) (t : Nat) (w : World) : Prop := Inside e t w ∧ Clean e t w

def Outside (e : EmailId) (t : Nat) (w : World) : Prop := w.spans.count (t, some e) = 0

theorem Outside.stable : Stable (postContract e) t (Outside e t) :=
  fun _ _ h hr _ => hr.spans.trans h

theorem Unposted.stable : Stable (postContract e) t (Unposted e t) := by
  intro w w' h hr _
  obtain ⟨ho, hp⟩ := hr.opener h.2.1
  exact ⟨hr.spans.trans h.1, ho, hp.trans h.2.2⟩

theorem Posted.stable : Stable (postContract e) t (Posted e t) := by
  intro w w' h hr _
  obtain ⟨ho, hp⟩ := hr.opener h.2.1
  exact ⟨hr.spans.trans h.1, ho, hp.trans h.2.2⟩

theorem Mapped.stable : Stable (postContract e) t (Mapped e t) :=
  fun _ _ h hr _ => ⟨hr.spans.trans h.1, hr.mapped h.2⟩

theorem Settled.stable : Stable (postContract e) t (Settled e t) :=
  fun _ _ h hr _ => ⟨hr.spans.trans h.1, hr.clean h.2⟩

theorem Mapped.settled (h : Mapped e t w) : Settled e t w := ⟨h.1, .inl h.2⟩

theorem Unposted.settled (h : Unposted e t w) : Settled e t w := ⟨h.1, .inr (.inr h.2.2)⟩

abbrev PostTriple (cfg : Config) (calls : Nat → Call) (e : EmailId) (t : Nat) (P : World → Prop)
    (p : Prog Op α) (Q : α → World → Prop) : Prop :=
  Triple (bridge cfg calls) (orderly e) (postContract e) t P p Q

abbrev PostStep (cfg : Config) (calls : Nat → Call) (e : EmailId) (t : Nat) (P : World → Prop)
    (c : Cmd) (R : c.Ans → World → Prop) : Prop :=
  Step (bridge cfg calls) (orderly e) (postContract e) t P (.mk c) R

theorem postStep_intro {c : Cmd} {P : World → Prop} {R : c.Ans → World → Prop}
    (h : ∀ w a b w', (postContract e).inv w → P w → c.orderly e t w a →
      exec t (.mk c) a w = some (b, w') →
      (postContract e).inv w' ∧ (∀ i, i ≠ t → (postContract e).rely i w w') ∧ R b w') :
    PostStep cfg calls e t P c R := h

theorem rely_of_same (hm : w.store.mapped e → w'.store.mapped e)
    (hs : w'.spansOn e = w.spansOn e) (hp : w'.posted e = w.posted e) (i : Nat) :
    PostRely e i w w' := by
  have hopener : w'.opener e = w.opener e := opener_of_spansOn hs
  refine ⟨hm, fun ho => ⟨hopener.trans ho, hp⟩, count_of_spansOn hs i, fun hc => ?_⟩
  rcases hc with h | h | h
  · exact .inl (hm h)
  · exact .inr (.inl (hopener ▸ h))
  · exact .inr (.inr (hp.trans h))

theorem inv_of_same (hm : w.store.mapped e → w'.store.mapped e)
    (hs : w'.spansOn e = w.spansOn e) (hp : w'.posted e = w.posted e)
    (hi : (postContract e).inv w) : (postContract e).inv w' := by
  refine ⟨by rw [hp]; exact hi.1, ?_⟩
  rw [hp, opener_of_spansOn hs]
  exact hi.2.imp id fun h => h.imp hm id

theorem apart_exec {c : Cmd} {a : Answer} {b : c.Ans} (hc : c.apart e)
    (h : exec t (.mk c) a w = some (b, w')) (hi : (postContract e).inv w) :
    (postContract e).inv w' ∧ ∀ i, (postContract e).rely i w w' := by
  have hposted : w'.posted e = w.posted e := by rw [posted_exec h, posting_of_apart hc]; rfl
  have hspans : w'.spansOn e = w.spansOn e := spansOn_apart hc h
  have hmapped : w.store.mapped e → w'.store.mapped e := mapped_exec h
  exact ⟨inv_of_same hmapped hspans hposted hi, rely_of_same hmapped hspans hposted⟩

theorem apart_keeps {P : World → Prop} (hP : Stable (postContract e) t P) {β : Type} {o : Op β}
    (hc : o.cmd.apart e) : Keeps (bridge cfg calls) (orderly e) (postContract e) t P β o := by
  obtain ⟨c⟩ := o
  intro w a b w' hw hi _ he
  obtain ⟨hinv, hrely⟩ := apart_exec hc he hi
  exact ⟨hinv, fun i _ => hrely i, hP w w' hw (hrely t) hinv⟩

theorem apart_triple {p : Prog Op α} {P : World → Prop} (hP : Stable (postContract e) t P)
    (hp : Does (fun c => c.apart e) p) : PostTriple cfg calls e t P p fun _ => P :=
  .only hP (Prog.Only.mono (fun _ _ => apart_keeps hP) hp)

theorem InboundCmd.apart {p : Poller} {c : Cmd} (h : InboundCmd p (· ≠ e) c) : c.apart e := by
  cases h with
  | post r s b ts hb =>
    have hne : b.origin ≠ .email e := fun h => hb e h rfl
    simpa [Cmd.apart] using hne
  | leave i hi =>
    have hne : i ≠ some e := fun h => hi e h rfl
    simpa [Cmd.apart] using hne
  | _ => rfl

theorem WalkCmd.apart {p : Poller} {c : Cmd} (h : WalkCmd p (· ≠ e) c) : c.apart e := by
  cases h with
  | inbound c h => exact h.apart
  | mailbox c h =>
    cases h with
    | contact c h => cases h <;> rfl
    | _ => rfl
  | enter i hi =>
    have hne : i ≠ some e := fun h => hi e h rfl
    simpa [Cmd.apart] using hne
  | _ => rfl

theorem enter_step :
    PostStep cfg calls e t (Outside e t) (.task (.enter (some e))) fun _ => Settled e t := by
  refine postStep_intro fun w a b w' hi hout _ he => ?_
  have hspans : w'.spans = (t, some e) :: w.spans := exec_spans he
  have hopener : w'.opener e = some ((w.opener e).getD t) := opener_enter hspans
  have hposted : w'.posted e = w.posted e := by rw [posted_exec he]; rfl
  have hmapped : w.store.mapped e → w'.store.mapped e := mapped_exec he
  have hnot : w.opener e ≠ some t := by
    intro ho
    obtain ⟨s, hs, hst⟩ := Option.map_eq_some_iff.mp ho
    obtain ⟨hmem, hse⟩ := List.mem_filter.mp (List.mem_of_getLast? hs)
    have hs' : s = (t, some e) := Prod.ext hst (by simpa using hse)
    have hpos := List.count_pos_iff.mpr (hs' ▸ hmem)
    have hzero : w.spans.count (t, some e) = 0 := hout
    omega
  have hclean : ∀ i, Clean e i w ∨ i = t → Clean e i w' := by
    intro i hc
    cases ho : w.opener e with
    | some j =>
      by_cases hj : j = i
      · rcases hc with (h | h | h) | rfl
        · exact .inl (hmapped h)
        · exact absurd (by rw [ho, hj]) h
        · exact .inr (.inr (hposted.trans h))
        · exact absurd (by rw [ho, hj]) hnot
      · exact .inr (.inl (by simpa [hopener, ho] using hj))
    | none =>
      rcases hi.2 with h | h | h
      · exact .inr (.inr (hposted.trans h))
      · exact .inl (hmapped h)
      · simp [ho] at h
  refine ⟨⟨by rw [hposted]; exact hi.1, .inr (.inr (by simp [hopener]))⟩, fun i hit => ?_, ?_⟩
  · refine ⟨hmapped, fun h => ⟨by simp [hopener, h], hposted⟩, ?_, fun h => hclean i (.inl h)⟩
    rw [hspans, List.count_cons_of_ne (by simpa using Ne.symm hit)]
  · refine ⟨?_, hclean t (.inr rfl)⟩
    have hzero : w.spans.count (t, some e) = 0 := hout
    rw [Inside, hspans, List.count_cons_self, hzero]

/-- A span may close when what is posted of `e` is mapped, or is another task's to map. -/
theorem close_keeps (hmapped : w.store.mapped e → w'.store.mapped e)
    (hposted : w'.posted e = w.posted e)
    (hkept : ∀ i, i ≠ t → w.opener e = some i → w'.opener e = some i)
    (hcount : ∀ i, i ≠ t → w'.spans.count (i, some e) = w.spans.count (i, some e))
    (hdone : w.posted e = 0 ∨ w.store.mapped e ∨ ∃ i, i ≠ t ∧ w.opener e = some i)
    (hi : (postContract e).inv w) :
    (postContract e).inv w' ∧ ∀ i, i ≠ t → PostRely e i w w' := by
  refine ⟨⟨by rw [hposted]; exact hi.1, ?_⟩, fun i hit => ?_⟩
  · rcases hdone with h | h | ⟨i, hit, ho⟩
    · exact .inl (hposted.trans h)
    · exact .inr (.inl (hmapped h))
    · exact .inr (.inr (by simp [hkept i hit ho]))
  · refine ⟨hmapped, fun h => ⟨hkept i hit h, hposted⟩, hcount i hit, fun hc => ?_⟩
    rcases hdone with h | h | ⟨j, hjt, ho⟩
    · exact .inr (.inr (hposted.trans h))
    · exact .inl (hmapped h)
    · rcases hc with h | h | h
      · exact .inl (hmapped h)
      · exact .inr (.inl (by rw [hkept j hjt ho, ← ho]; exact h))
      · exact .inr (.inr (hposted.trans h))

theorem leave_step :
    PostStep cfg calls e t (Settled e t) (.task (.leave (some e))) fun _ => Outside e t := by
  refine postStep_intro fun w a b w' hi hw _ he => ?_
  have hspans : w'.spans = w.spans.erase (t, some e) := exec_spans he
  have hposted : w'.posted e = w.posted e := by rw [posted_exec he]; rfl
  have hdone : w.posted e = 0 ∨ w.store.mapped e ∨ ∃ i, i ≠ t ∧ w.opener e = some i := by
    rcases hw.2 with h | h | h
    · exact .inr (.inl h)
    · rcases hi.2 with h0 | hm | ho
      · exact .inl h0
      · exact .inr (.inl hm)
      · obtain ⟨i, ho⟩ := Option.isSome_iff_exists.mp ho
        exact .inr (.inr ⟨i, fun hit => h (hit ▸ ho), ho⟩)
    · exact .inl h
  have hcount : ∀ i, i ≠ t → w'.spans.count (i, some e) = w.spans.count (i, some e) := by
    intro i hit
    rw [hspans, List.count_erase_of_ne (by simpa using hit)]
  obtain ⟨hinv, hrely⟩ := close_keeps (mapped_exec he) hposted
    (fun i hit ho => opener_leave hit ho hspans) hcount hdone hi
  refine ⟨hinv, hrely, ?_⟩
  have hone : w.spans.count (t, some e) = 1 := hw.1
  rw [Outside, hspans, List.count_erase_self, hone]

theorem hasMessageMapped_step :
    PostStep cfg calls e t (Settled e t) (.store (.hasMessageMapped e))
      fun b w => Settled e t w ∧ (b = .ok false → Unposted e t w) := by
  refine postStep_intro fun w a b w' hi hw ha he => ?_
  obtain ⟨hinv, hrely⟩ := apart_exec rfl he hi
  have hsettled : Settled e t w' := Settled.stable w w' hw (hrely t) hinv
  refine ⟨hinv, fun i _ => hrely i, hsettled, fun hb => ?_⟩
  have hfound : w.store.mapped e = false ∧ w.opener e = some t := by
    rcases exec_store he with ⟨order, horder, hrun, -⟩ | ⟨-, hrun, -⟩ | ⟨-, hrun, -⟩
    · have hm : w.store.mapped e = false := Except.ok.inj (hrun.symm.trans hb)
      rcases horder with ⟨rfl, -⟩ | rfl
      · exact ⟨hm, by simpa [Cmd.orderly, hm] using ha⟩
      · exact ⟨hm, by simpa [Cmd.orderly, hm] using ha⟩
    · simp [hrun] at hb
    · simp [hrun] at hb
  obtain ⟨hopener, hposted⟩ := (hrely t).opener hfound.2
  refine ⟨hsettled.1, hopener, hposted.trans ?_⟩
  rcases hw.2 with h | h | h
  · simp [hfound.1] at h
  · exact absurd hfound.2 h
  · exact h

theorem post_step {room : RoomId} {s : UserId} {body : EmailBody} {ts : Option Nat}
    (ho : body.origin = .email e) :
    PostStep cfg calls e t (Unposted e t) (.matrix (.sendAsGhost room s (.message body) ts))
      (post (fun _ => Posted e t) fun _ => Unposted e t) := by
  refine postStep_intro fun w a b w' hi hw ha he => ?_
  obtain ⟨hin, hopen, hzero⟩ := hw
  have hspans : w'.spans = w.spans := exec_spans he
  have hopener : w'.opener e = w.opener e := by rw [World.opener, hspans]; rfl
  have hmapped : w.store.mapped e → w'.store.mapped e := mapped_exec he
  have hposted := posted_exec (e := e) he
  have hsome : (w'.opener e).isSome := by simp [hopener, hopen]
  have hrely : ∀ i, i ≠ t → (postContract e).rely i w w' := by
    intro i hit
    refine ⟨hmapped, fun h => ?_, by rw [hspans], fun _ => .inr (.inl ?_)⟩
    · rw [hopen] at h
      exact absurd (Option.some.inj h).symm hit
    · rw [hopener, hopen]
      simpa using Ne.symm hit
  have hin' : Inside e t w' := by rw [Inside, hspans]; exact hin
  rcases exec_send he with ⟨event, rfl, rfl⟩ | ⟨hrefused, err, rfl⟩ | ⟨event, rfl, -⟩
  · have hone : w'.posted e = 1 := by rw [hposted, hzero]; simp [posting, ho]
    exact ⟨⟨by omega, .inr (.inr hsome)⟩, hrely, hin', hopener.trans hopen, hone⟩
  · have hzero' : w'.posted e = 0 := by
      rw [hposted, hzero]
      rcases hrefused with rfl | rfl
      · rfl
      · rfl
    exact ⟨⟨by omega, .inr (.inr hsome)⟩, hrely, hin', hopener.trans hopen, hzero'⟩
  · simp [Cmd.orderly, ho] at ha

theorem saveMessage_step {event : EventId} :
    PostStep cfg calls e t (Posted e t) (.store (.saveMessageMapping e event))
      fun _ => Mapped e t := by
  refine postStep_intro fun w a b w' hi hw ha he => ?_
  obtain ⟨hinv, hrely⟩ := apart_exec rfl he hi
  have hin : Inside e t w' := (hrely t).spans.trans hw.1
  refine ⟨hinv, fun i _ => hrely i, hin, ?_⟩
  rcases exec_store he with ⟨order, -, -, rfl⟩ | ⟨rfl, -, -⟩ | ⟨-, -, rfl⟩
  · simp [Store.mapped, StoreCmd.run]
  · simp [Cmd.orderly] at ha
  · simp [Store.mapped, StoreCmd.run]

/-- A failure to save the thread only gets through where the email is mapped already. -/
theorem saveThread_posted {thread : ThreadId} {event : EventId} {room : RoomId} {subject : String} :
    PostStep cfg calls e t (Posted e t)
      (.store (.saveThreadMappingAtomic thread event room subject))
      (post (fun _ => Posted e t) fun _ => Mapped e t) := by
  refine postStep_intro fun w a b w' hi hw ha he => ?_
  obtain ⟨hinv, hrely⟩ := apart_exec rfl he hi
  have hposted : Posted e t w' := Posted.stable w w' hw (hrely t) hinv
  refine ⟨hinv, fun i _ => hrely i, ?_⟩
  have hmapped : w.unsettled e t = false → Mapped e t w' := by
    intro hu
    have hm : w.store.mapped e := by simpa [World.unsettled, hw.2.1, hw.2.2] using hu
    exact ⟨hposted.1, mapped_exec he hm⟩
  rcases exec_store he with ⟨order, -, rfl, -⟩ | ⟨rfl, rfl, -⟩ | ⟨⟨s, rfl⟩, rfl, -⟩
  · exact hposted
  · exact hmapped (by simpa [Cmd.orderly] using ha)
  · exact hmapped (by simpa [Cmd.orderly] using ha)

theorem sendMessageAs_post {room : RoomId} {body : EmailBody} {sender : UserId} {ts : Option Nat}
    (ho : body.origin = .email e) :
    PostTriple cfg calls e t (Unposted e t) (sendMessageAs room body sender ts)
      (post (fun _ => Posted e t) fun _ => Unposted e t) := by
  have hstable : ∀ r : Except Err EventId, Stable (postContract e) t
      (post (fun _ => Posted e t) (fun _ => Unposted e t) r) := by
    intro r
    cases r with
    | ok _ => exact Posted.stable
    | error _ => exact Unposted.stable
  have hsend : PostTriple cfg calls e t (Unposted e t)
      (onMatrix (.sendAsGhost room sender (.message body) ts))
      (post (fun _ => Posted e t) fun _ => Unposted e t) :=
    .call Unposted.stable (post_step ho) hstable
  refine .andThen (.attempt hsend hstable) (fun _ => Unposted.stable) fun r => ?_
  split
  · exact .ok Posted.stable fun _ _ h => h
  · refine .andThen (R := fun _ => Unposted e t) ?_ (fun _ => Unposted.stable) fun _ => ?_
    · exact .bind (apart_triple Unposted.stable (.matrix rfl)) fun _ =>
        .pure Unposted.stable fun _ _ h => h
    · refine .andThen (R := fun _ => Unposted e t) ?_ (fun _ => Unposted.stable) fun _ => hsend
      exact .post (apart_triple Unposted.stable (.matrix rfl)) fun r _ _ h => by cases r <;> exact h
  · exact .fail Unposted.stable fun _ _ h => h

section

variable {p : Poller} {email : Email}

theorem inbound_triple {P : World → Prop} (hP : Stable (postContract e) t P) {x : Prog Op α}
    (hx : DoesInbound p (· ≠ e) x) : PostTriple cfg calls e t P x fun _ => P :=
  apart_triple hP (hx.mono fun _ => InboundCmd.apart)

theorem saveThread_triple {thread : ThreadId} {event : EventId} {room : RoomId} {subject : String} :
    PostTriple cfg calls e t (Posted e t)
      (onStore (.saveThreadMappingAtomic thread event room subject))
      (post (fun _ => Posted e t) fun _ => Settled e t) := by
  refine .weaken (.call Posted.stable saveThread_posted fun r => ?_) (fun _ _ h => h)
    fun _ _ h => Mapped.settled h
  cases r with
  | ok _ => exact Posted.stable
  | error _ => exact Mapped.stable

theorem posting_bridging :
    Bridging (bridge cfg calls) (orderly e) (postContract e) t p e (Unposted e t) (Posted e t)
      (Mapped e t) (Settled e t) where
  stable_unsent := Unposted.stable
  stable_mapped := Mapped.stable
  stable_ended := Settled.stable
  ended_of_unsent := fun _ h => Unposted.settled h
  ended_of_mapped := fun _ h => Mapped.settled h
  before := fun x hx => .post (inbound_triple Unposted.stable hx) fun r _ _ h => by
    cases r with
    | ok _ => exact h
    | error _ => exact Unposted.settled h
  send := fun room body sender ts ho =>
    .weaken (sendMessageAs_post ho) (fun _ _ h => h) fun _ _ h => Unposted.settled h
  saveThread := fun _ _ _ _ => saveThread_triple
  saveMessage := fun event => .post (.call Posted.stable saveMessage_step fun _ => Mapped.stable)
    fun r _ _ h => by
      cases r with
      | ok _ => exact h
      | error _ => exact Mapped.settled h
  after := fun x hx => inbound_triple Mapped.stable hx
  leaving := fun x hx => inbound_triple Settled.stable hx

theorem bridgeEmail_post (hid : email.id = some e) :
    PostTriple cfg calls e t (Unposted e t) (bridgeEmail cfg p email e) fun _ => Settled e t := by
  have hskip : ∀ sender, PostTriple cfg calls e t (Unposted e t)
      (onTask (.log (.skipping e sender))) fun _ => Settled e t := fun sender =>
    .post (apart_triple Unposted.stable (.task rfl)) fun _ _ _ h => Unposted.settled h
  refine .post (posting_bridging.bridgeEmail hid Settled.stable (fun _ h => Mapped.settled h) hskip)
    fun r _ _ h => ?_
  cases r with
  | ok _ => exact h
  | error _ => exact h

theorem processEmail_post :
    PostTriple cfg calls e t (Outside e t) (processEmail cfg p email) fun _ => Outside e t := by
  by_cases hid : email.id = some e
  · have hbody : PostTriple cfg calls e t (Settled e t)
        (Act.andThen (Act.ofOption (.context "Email missing id") (some e)) fun emailId =>
          Act.andThen (onStore (.hasMessageMapped emailId)) fun b =>
            if b then Act.lift (syncReadState p email) else bridgeEmail cfg p email emailId)
        fun _ => Settled e t := by
      have hstable : ∀ b : Except Err Bool,
          Stable (postContract e) t fun w => Settled e t w ∧ (b = .ok false → Unposted e t w) :=
        fun b => Settled.stable.and fun w w' h hr hi hb => Unposted.stable w w' (h hb) hr hi
      change PostTriple cfg calls e t _ (Act.andThen (onStore (.hasMessageMapped e)) _) _
      refine .bind (.call Settled.stable hasMessageMapped_step hstable) fun r => ?_
      cases r with
      | error _ => exact .pure (hstable _) fun _ _ h => h.1
      | ok b =>
        cases b with
        | true =>
          exact .bind (.pre (inbound_triple (p := p) Settled.stable syncReadState_inbound)
            fun _ _ h => h.1) fun _ => .pure Settled.stable fun _ _ h => h
        | false => exact .pre (bridgeEmail_post hid) fun _ _ h => h.2 rfl
    rw [processEmail, hid]
    refine .bind (.call Outside.stable enter_step fun _ => Settled.stable) fun _ => ?_
    refine .bind hbody fun r => ?_
    exact .bind (.call Settled.stable leave_step fun _ => Outside.stable) fun _ =>
      .pure Outside.stable fun _ _ h => h
  · have hwalk : DoesWalk p (· ≠ e) (processEmail cfg p email) :=
      processEmail_walk fun i hi h => hid (h ▸ hi)
    exact apart_triple Outside.stable (hwalk.mono fun _ => WalkCmd.apart)

end

theorem ingests_upholds (hcalls : ∀ t, (calls t).Ingests) :
    Upholds (bridge cfg calls) (orderly e) (postContract e) where
  start := by
    intro t w hi hidle _
    have hclosed : ∀ p : Poller, Prog.Closed (fun _ o => WalkCmd p (· ≠ e) o.cmd) fun _ x =>
        PostTriple cfg calls e t (Outside e t) x fun _ => Outside e t :=
      fun p => (Triple.closed Outside.stable).mono fun _ _ h => apart_keeps Outside.stable h.apart
    have hprog : PostTriple cfg calls e t (Outside e t) ((calls t).program cfg)
        fun _ => Outside e t := by
      have hc := hcalls t
      match hcall : calls t with
      | .poll p =>
        have h : PostTriple cfg calls e t (Outside e t) (poll cfg p) fun _ => Outside e t :=
          poll_closed ((hclosed p).mono fun _ _ => PaceCmd.walk)
            ((hclosed p).of_only (pollMailboxes_does.mono .mailbox)) fun _ => processEmail_post
        exact (hclosed p).bind h fun _ => (hclosed p).pure ()
      | .backfill p =>
        exact runBackfillLoop_closed ((hclosed p).mono fun _ _ => PaceCmd.walk) fun _ =>
          processEmail_post
      | .newThread .. | .fileRoom .. | .repairSpace _ | .worker
      | .transaction .. | .detached _ | .prune | .logout _ =>
        rw [hcall] at hc
        exact hc.elim
    exact hprog w hi hidle
  env := by
    intro ev w w' hi _ h
    have hsame : w'.posted e = w.posted e ∧ w'.spansOn e = w.spansOn e ∧
        w'.store.mapped e = w.store.mapped e := by
      cases ev with
      | release key stored =>
        change (Env.release key stored).perform w = some w' at h
        simp only [Env.perform] at h
        split at h
        · obtain rfl := Option.some.inj h
          exact ⟨rfl, rfl, rfl⟩
        · cases h
      | _ =>
        obtain rfl := Option.some.inj h
        exact ⟨rfl, rfl, rfl⟩
    obtain ⟨hposted, hspans, hmapped⟩ := hsame
    have hm : w.store.mapped e → w'.store.mapped e := fun h => hmapped ▸ h
    exact ⟨inv_of_same hm hspans hposted hi, rely_of_same hm hspans hposted⟩
  cancel := by
    intro t w hi hd
    have hsettled : w.unsettled e t = false := hd
    have hdone : w.posted e = 0 ∨ w.store.mapped e ∨ ∃ i, i ≠ t ∧ w.opener e = some i := by
      rcases hi.2 with h0 | hm | ho
      · exact .inl h0
      · exact .inr (.inl hm)
      · obtain ⟨i, ho⟩ := Option.isSome_iff_exists.mp ho
        by_cases hit : i = t
        · by_cases h0 : w.posted e = 0
          · exact .inl h0
          · have hm : w.store.mapped e := by simpa [World.unsettled, ho, hit, h0] using hsettled
            exact .inr (.inl hm)
        · exact .inr (.inr ⟨i, hit, ho⟩)
    have hcount : ∀ i, i ≠ t → (drop t w).spans.count (i, some e) = w.spans.count (i, some e) :=
      fun i hit => List.count_filter (by simpa using hit)
    have hkept : ∀ i, i ≠ t → w.opener e = some i → (drop t w).opener e = some i :=
      fun i hit ho => opener_drop w hit ho
    have hmapped : w.store.mapped e → (drop t w).store.mapped e := id
    obtain ⟨hinv, hrely⟩ := close_keeps hmapped rfl hkept hcount hdone hi
    refine ⟨hinv, hrely, List.count_eq_zero.mpr fun hmem => ?_⟩
    have hne := (List.mem_filter.mp hmem).2
    simp at hne

/-- In every run of polls and backfills whose commands are `orderly` for an email, at most
one message event with its body is sent. -/
theorem one_message_per_email (hcalls : ∀ t, (calls t).Ingests) (hw : w.trace = [])
    (hspans : w.spans = []) {es : List (Event Answer Env)} {q : Pool Op World}
    (hrun : (bridge cfg calls).run es (Pool.boot w) = some q)
    (hD : (bridge cfg calls).Admits (orderly e).meets es (Pool.boot w)) :
    q.world.posted e ≤ 1 := by
  have hzero : w.posted e = 0 := by simp [World.posted, hw]
  have hinv : (postContract e).inv w := ⟨by omega, .inl hzero⟩
  have hidle : ∀ t, (postContract e).idle t w := fun t => by simp [postContract, hspans]
  exact ((ingests_upholds hcalls).inv_of_run hinv hidle hrun hD).1

end

/-- A poll and a manual poll of the same account. -/
def twoPolls (_ : Nat) : Call := .poll ⟨"@a:localhost", "a"⟩

def twoPollsWorld : World where
  store :=
    { users := (∅ : Sql.Table _ _).insert "@a:localhost" ⟨"a", "token", "url"⟩
      jmapState := (∅ : Sql.Table _ _).insert ("@a:localhost", .changes) "s0"
      threadMapping := (∅ : Sql.Table _ _).insert "T" ⟨"$root", "!r", none⟩ }

def newEmail : Email :=
  { id := some "e1", threadId := some "T", fromAddrs := some [⟨none, "bob@x"⟩] }

/-- Task `t` learns of the new email and fetches it. -/
def fetches (t : Nat) : List (Event Answer Env) :=
  [.start t, .step t .done, .tau t,
    .step t (.reply (.changes { newState := "s1", created := ["e1"] })),
    .step t (.reply (.emails [newEmail]))]

/-- Task `t` finds the email unmapped and the thread in its room. -/
def resolves (t : Nat) : List (Event Answer Env) :=
  [.step t .done, .step t .done, .step t .done, .step t (.flag false), .step t .done]

/-- The second poll enters the email while the first is still inside, and finds it mapped. -/
def mappedRun : List (Event Answer Env) :=
  fetches 0 ++ fetches 1 ++ resolves 0 ++
  ([.step 0 (.id "$a"), .step 0 .done] : List (Event Answer Env)) ++
    List.replicate 2 (.step 1 .done) ++ List.replicate 6 (.step 0 .done) ++
    List.replicate 5 (.step 1 .done) ++ ([.tau 0, .tau 1] : List (Event Answer Env))

theorem one_message_per_email_mapped : ∃ q,
    (bridge {} twoPolls).run mappedRun (Pool.boot twoPollsWorld) = some q ∧
      q.world.posted "e1" ≤ 1 := by
  have hends : ((bridge {} twoPolls).run mappedRun (Pool.boot twoPollsWorld)).isSome := by
    decide +kernel
  have horderly : (bridge {} twoPolls).Admits (orderly "e1").meets mappedRun
      (Pool.boot twoPollsWorld) := by decide +kernel
  obtain ⟨q, hq⟩ := Option.isSome_iff_exists.mp hends
  have hcalls : ∀ t, (twoPolls t).Ingests := fun _ => trivial
  exact ⟨q, hq, one_message_per_email hcalls rfl rfl hq horderly⟩

/-- Both polls find the email unmapped before either has mapped it. -/
def racingRun : List (Event Answer Env) :=
  fetches 0 ++ fetches 1 ++ resolves 0 ++ resolves 1 ++
    ([.step 0 (.id "$a"), .step 1 (.id "$b")] : List (Event Answer Env))

theorem racing_polls_post_twice : (∀ t, (twoPolls t).Ingests) ∧
    ((bridge {} twoPolls).run racingRun (Pool.boot twoPollsWorld)).map
      (fun q => q.world.posted "e1") = some 2 := by
  refine ⟨fun _ => trivial, ?_⟩
  decide +kernel

end JmapBridge
