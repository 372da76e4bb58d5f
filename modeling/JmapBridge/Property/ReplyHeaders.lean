import JmapBridge.Model.Reply
import JmapBridge.Effect.Ends
import Mathlib.Data.List.Induction

/-! The headers of a reply: References lists the Message-IDs of the thread once each, in the
order of the thread, and In-Reply-To is the last of them. -/

namespace JmapBridge.Reply

open Effect

/-- An `Email/get` answer has one object for an email, whatever their order. -/
structure EmailGetAnswer where
  list : List GetEmail
  distinct : (list.filterMap (·.id)).Nodup

/-- The first Message-IDs of the thread's emails, in the order of the thread. -/
def messageIds (ids : List EmailId) (emails : List GetEmail) : List String :=
  ids.filterMap fun eid => (emails.find? fun e => e.id == some eid).bind GetEmail.firstMessageId

structure HeadersFollow (ids : List EmailId) (emails : List GetEmail)
    (r : Option String × List String) : Prop where
  references : r.2 = (messageIds ids emails).eraseDups
  nodup : r.2.Nodup
  in_reply_to : r.1 = (messageIds ids emails).getLast?
  none_iff : r.1 = none ↔ r.2 = []
  mem : ∀ mid, r.1 = some mid → mid ∈ r.2

theorem eraseDups_concat (l : List String) (a : String) :
    (l ++ [a]).eraseDups = if l.any (· == a) then l.eraseDups else l.eraseDups ++ [a] := by
  rw [List.eraseDups_append]
  by_cases ha : a ∈ l
  · have hany : (l.any (· == a)) = true := List.any_eq_true.mpr ⟨a, ha, beq_self_eq_true a⟩
    rw [if_pos hany]
    simp [List.removeAll, ha]
  · have hany : ¬(l.any (· == a)) = true := fun h => by
      obtain ⟨b, hb, heq⟩ := List.any_eq_true.mp h
      exact ha (beq_iff_eq.mp heq ▸ hb)
    rw [if_neg hany]
    simp [List.removeAll, ha, List.eraseDups_cons]

theorem nodup_eraseDups (l : List String) : l.eraseDups.Nodup := by
  induction l using List.reverseRecOn with
  | nil => exact List.nodup_nil
  | append_singleton l a ih =>
    rw [eraseDups_concat]
    split
    · exact ih
    · rename_i hany
      refine List.nodup_append.mpr ⟨ih, List.nodup_singleton a, fun b hb c hc heq => hany ?_⟩
      rw [List.mem_singleton.mp hc] at heq
      exact List.any_eq_true.mpr ⟨b, List.mem_eraseDups.mp hb, beq_iff_eq.mpr heq⟩

theorem messageIds_concat (ids : List EmailId) (emails : List GetEmail) (eid : EmailId) :
    messageIds (ids ++ [eid]) emails = messageIds ids emails ++
      ((emails.find? fun e => e.id == some eid).bind GetEmail.firstMessageId).toList := by
  rw [messageIds, List.filterMap_append, ← messageIds]
  refine congrArg (messageIds ids emails ++ ·) ?_
  cases hmid : (emails.find? fun e => e.id == some eid).bind GetEmail.firstMessageId with
  | none => simp [hmid]
  | some mid => simp [hmid]

/-- After each email of the thread: its last Message-ID so far, and all of them once. -/
theorem foldl_chainStep (ids : List EmailId) (emails : List GetEmail) :
    ids.foldl (chainStep emails) (none, []) =
      ((messageIds ids emails).getLast?, (messageIds ids emails).eraseDups) := by
  induction ids using List.reverseRecOn with
  | nil => rfl
  | append_singleton ids eid ih =>
    rw [List.foldl_append, ih, List.foldl_cons, List.foldl_nil, chainStep, messageIds_concat]
    cases (emails.find? fun e => e.id == some eid).bind GetEmail.firstMessageId with
    | none => simp
    | some mid =>
      have hany : (messageIds ids emails).eraseDups.any (· == mid) =
          (messageIds ids emails).any (· == mid) := by
        rw [Bool.eq_iff_iff]
        simp
      rw [Option.toList_some, List.getLast?_concat, eraseDups_concat]
      simp only [hany]

theorem headersFollow (ids : List EmailId) (emails : List GetEmail) :
    HeadersFollow ids emails (ids.foldl (chainStep emails) (none, [])) := by
  rw [foldl_chainStep]
  refine ⟨rfl, nodup_eraseDups _, rfl, ?_, fun mid h => ?_⟩
  · rw [List.getLast?_eq_none_iff]
    cases messageIds ids emails with
    | nil => simp
    | cons m l => simp [List.eraseDups_cons]
  · exact List.mem_eraseDups.mpr (List.mem_of_getLast? h)

/-! ### The order of the answer -/

theorem find?_of_distinct {l : List GetEmail} (hd : (l.filterMap (·.id)).Nodup) {e : GetEmail}
    {eid : EmailId} (hmem : e ∈ l) (hid : e.id = some eid) :
    (l.find? fun e => e.id == some eid) = some e := by
  induction l with
  | nil => exact absurd hmem List.not_mem_nil
  | cons x l ih =>
    by_cases hx : x.id = some eid
    · rw [List.find?_cons_of_pos (by simp [hx])]
      rcases List.mem_cons.mp hmem with rfl | hmem
      · rfl
      · rw [List.filterMap_cons_some hx] at hd
        exact absurd (List.mem_filterMap.mpr ⟨e, hmem, hid⟩) (List.nodup_cons.mp hd).1
    · rw [List.find?_cons_of_neg (by simp [hx])]
      rcases List.mem_cons.mp hmem with rfl | hmem
      · exact absurd hid hx
      · refine ih ?_ hmem
        cases hxid : x.id with
        | none => rwa [List.filterMap_cons_none hxid] at hd
        | some i =>
          rw [List.filterMap_cons_some hxid] at hd
          exact (List.nodup_cons.mp hd).2

theorem messageIds_perm {a b : EmailGetAnswer} (h : a.list.Perm b.list) (ids : List EmailId) :
    messageIds ids a.list = messageIds ids b.list := by
  refine List.filterMap_congr fun eid _ =>
    congrArg (fun o => Option.bind o GetEmail.firstMessageId) ?_
  cases hfind : a.list.find? fun e => e.id == some eid with
  | none =>
    refine (List.find?_eq_none.mpr fun e he => ?_).symm
    exact List.find?_eq_none.mp hfind e (h.mem_iff.mpr he)
  | some e =>
    have hid : e.id = some eid := by
      have hsome := List.find?_some hfind
      exact beq_iff_eq.mp hsome
    exact (find?_of_distinct b.distinct (h.mem_iff.mp (List.mem_of_find?_eq_some hfind)) hid).symm

/-! ### The two requests -/

/-- The server answers with these ids and these emails. -/
def answering (ids : List EmailId) (emails : List GetEmail) :
    Discipline MailOp MailWorld MailAnswer StoredEmail where
  step _ _ o a _ :=
    match o, a with
    | .mk (.getThread _), .thread stored => stored.map (·.id) = ids
    | .mk (.getThread _), _ => False
    | .mk (.getMessageIds _), .emails list => list = emails
    | .mk (.getMessageIds _), _ => False
    | _, _ => True

section

variable {formatUtc : Int → String} {calls : Nat → ReplyCall} {ids : List EmailId}
  {emails : List GetEmail} {t : Nat} {P : MailWorld → Prop}

theorem getThread_answers (thread : ThreadId) :
    Ends (replySystem formatUtc calls) (answering ids emails) t P (onMail (.getThread thread))
      fun found _ => found = some ids := by
  refine .call fun w a found w' _ hstep hexec => ?_
  have hexec : mailExec t (.mk (.getThread thread)) a w = some (found, w') := hexec
  obtain ⟨hrun, -⟩ := mailExec_mk hexec
  cases a with
  | thread stored =>
    have hids : stored.map (·.id) = ids := hstep
    have hfound : some (stored.map (·.id)) = found := Option.some.inj hrun
    rw [← hfound, hids]
  | failed => exact hstep.elim
  | emails list => exact hstep.elim
  | done => exact hstep.elim

theorem getMessageIds_answers (asked : List EmailId) :
    Ends (replySystem formatUtc calls) (answering ids emails) t P (onMail (.getMessageIds asked))
      fun found _ => found = some emails := by
  refine .call fun w a found w' _ hstep hexec => ?_
  have hexec : mailExec t (.mk (.getMessageIds asked)) a w = some (found, w') := hexec
  obtain ⟨hrun, -⟩ := mailExec_mk hexec
  cases a with
  | emails list =>
    have hlist : list = emails := hstep
    have hfound : some list = found := Option.some.inj hrun
    rw [← hfound, hlist]
  | failed => exact hstep.elim
  | thread stored => exact hstep.elim
  | done => exact hstep.elim

theorem replyHeaders_ends (thread : ThreadId) :
    Ends (replySystem formatUtc calls) (answering ids emails) t P (replyHeaders thread)
      fun r _ => r = ids.foldl (chainStep emails) (none, []) := by
  have hids : Ends (replySystem formatUtc calls) (answering ids emails) t P (threadEmailIds thread)
      fun found _ => found = ids :=
    .bind (getThread_answers thread) fun found => .pure fun _ h => by rw [h]; rfl
  refine .bind hids fun found => ?_
  by_cases hnil : found.isEmpty = true
  · rw [if_pos hnil]
    refine .pure fun _ h => ?_
    rw [← h, List.isEmpty_iff.mp hnil]
    rfl
  · rw [if_neg hnil]
    intro w r w' hfound heval
    obtain rfl := hfound
    refine Ends.bind (R := fun r _ => r = found.foldl (chainStep emails) (none, []))
      (getMessageIds_answers (P := fun _ => True) found) (fun answer => ?_) w r w' trivial heval
    cases answer with
    | none => exact .pure fun _ h => by cases h
    | some list => exact .pure fun _ h => by rw [Option.some.inj h]

theorem replyHeaders_can (thread : ThreadId) (w : MailWorld) :
    Can (replySystem formatUtc calls) (answering ids emails) t (replyHeaders thread) w
      fun r _ => r = ids.foldl (chainStep emails) (none, []) := by
  have hstored : ∃ stored : List StoredEmail, stored.map (·.id) = ids :=
    ⟨ids.map fun id => ⟨thread, id, {}⟩, by rw [List.map_map]; exact List.map_id ids⟩
  obtain ⟨stored, hids⟩ := hstored
  refine .bind (.bind (.call (c := .thread stored) hids rfl (.pure ?_)))
  rw [Option.getD_some, hids]
  by_cases hnil : ids.isEmpty = true
  · rw [if_pos hnil, List.isEmpty_iff.mp hnil]
    exact .pure rfl
  · rw [if_neg hnil]
    refine .bind (.call (c := .emails emails) ?_ rfl (.pure rfl))
    exact rfl

end

/-- The headers follow the thread, and not the order in which the server lists its emails. -/
theorem replyHeaders_follow (formatUtc : Int → String) (calls : Nat → ReplyCall) (t : Nat)
    (thread : ThreadId) (ids : List EmailId) (answer : EmailGetAnswer) (w : MailWorld) :
    ∃ r, HeadersFollow ids answer.list r ∧
      Can (replySystem formatUtc calls) (answering ids answer.list) t (replyHeaders thread) w
        (fun r' _ => r' = r) ∧
      ∀ order : EmailGetAnswer, order.list.Perm answer.list →
        Ends (replySystem formatUtc calls) (answering ids order.list) t (fun _ => True)
          (replyHeaders thread) fun r' _ => r' = r := by
  refine ⟨_, headersFollow ids answer.list, replyHeaders_can thread w, fun order hperm => ?_⟩
  refine (replyHeaders_ends thread).post fun r' _ h => ?_
  rw [h, foldl_chainStep, foldl_chainStep, messageIds_perm hperm]

end JmapBridge.Reply
