import JmapBridge.Model.Reply
import JmapBridge.Rust.Lines

/-! A quote that the bridge adds to a mail, when the mail comes back. It is cut where its first
line is still an attribution, and that line ends where the sender's name has a line break. -/

namespace JmapBridge.Content

open Rust Rust.Str

/-- A mail as it is sent, with the quote of its parent. -/
def quotedReply (reply sender date body : Str) : Str :=
  reply ++ "\n\n".toList ++ formatReplyQuote sender date body

/-- The attribution as it is written, before any line break in it. -/
def attributionLine (sender date : Str) : Str :=
  splitNext '\n' ("On ".toList ++ date ++ ", ".toList ++ sender ++ " wrote:".toList)

/-- The lines before the first at which the stripper cuts. -/
def keptOf (s : Str) : List Str := (lines s).takeWhile fun line => !isAttribution line

def joined (ls : List Str) : Str := trimEnd (['\n'].intercalate ls)

theorem stripQuotedReply_eq (s : Str) : stripQuotedReply s = joined (keptOf s) := rfl

/-! ### Joining lines -/

theorem intercalate_cons (l m : Str) (ls : List Str) :
    ['\n'].intercalate (l :: m :: ls) = l ++ '\n' :: ['\n'].intercalate (m :: ls) := by
  simp [List.intercalate, List.intersperse]

theorem joined_cons {l : Str} {ls ms : List Str} (h : joined ls = joined ms) :
    joined (l :: ls) = joined (l :: ms) := by
  have hcons : ∀ ls : List Str, joined (l :: ls) =
      if joined ls = [] then trimEnd l else l ++ '\n' :: joined ls := by
    intro ls
    cases ls with
    | nil =>
      rw [if_pos (show joined [] = [] from rfl)]
      simp [joined, List.intercalate]
    | cons m ls =>
      rw [joined, intercalate_cons]
      by_cases hnil : joined (m :: ls) = []
      · have hblank : Blank ('\n' :: ['\n'].intercalate (m :: ls)) :=
          blank_cons.mpr ⟨by decide, trimEnd_eq_nil_iff.mp hnil⟩
        rw [if_pos hnil, trimEnd_append_blank _ hblank]
      · have hne : trimEnd (['\n'].intercalate (m :: ls)) ≠ [] := hnil
        have hsplit : l ++ '\n' :: ['\n'].intercalate (m :: ls) =
            (l ++ ['\n']) ++ ['\n'].intercalate (m :: ls) := by simp
        rw [if_neg hnil, hsplit, trimEnd_append_of_ne hne, List.append_assoc]
        rfl
  rw [hcons, hcons, h]

theorem joined_blank {l : Str} (hl : Blank l) : joined [l] = [] := by
  rw [joined, show ['\n'].intercalate [l] = l by simp [List.intercalate]]
  exact trimEnd_eq_nil_iff.mpr hl

theorem blank_return : Blank ['\r'] := blank_cons.mpr ⟨by decide, blank_nil⟩

theorem joined_chomp (l : Str) : joined [chomp l, []] = joined [l] := by
  have hend : ∀ m : Str, joined [m] = trimEnd m := fun m => by simp [joined, List.intercalate]
  have hnil : joined [[]] = joined [] := joined_blank blank_nil
  rw [joined_cons hnil, hend, hend]
  rcases chomp_cases l with h | h
  · rw [h]
  · conv_rhs => rw [h]
    rw [trimEnd_append_blank _ blank_return]

/-! ### The cut -/

theorem isAttribution_chomp (l : Str) : isAttribution (chomp l) = isAttribution l := by
  have htrim : Str.trim (chomp l) = Str.trim l := by
    rcases chomp_cases l with h | h
    · rw [h]
    · conv_rhs => rw [h]
      rw [Str.trim, Str.trim, ← trimStart_trimEnd, ← trimStart_trimEnd,
        trimEnd_append_blank _ blank_return]
  rw [isAttribution, isAttribution, htrim]

theorem isAttribution_nil : isAttribution [] = false := by decide +kernel

/-- Where the quote is cut at its first line, or the reply before it, the quote leaves no trace. -/
theorem joined_quoted {reply q : Str}
    (h : (∃ l ∈ lines reply, isAttribution l = true) ∨ keptOf q = []) :
    joined (keptOf (reply ++ '\n' :: '\n' :: q)) = joined (keptOf reply) := by
  induction reply using line_induction with
  | last l hl =>
    have hlines : lines (l ++ '\n' :: '\n' :: q) = chomp l :: [] :: lines q := by
      rw [lines_newline hl, ← List.nil_append ('\n' :: q), lines_newline List.not_mem_nil]
      rfl
    by_cases hnil : l = []
    · have hq : keptOf q = [] := by
        rcases h with ⟨m, hm, -⟩ | h
        · rw [hnil] at hm
          exact absurd hm List.not_mem_nil
        · exact h
      have hkept : keptOf (l ++ '\n' :: '\n' :: q) = [[], []] := by
        rw [keptOf, hlines, hnil, List.takeWhile_cons_of_pos (by decide +kernel),
          List.takeWhile_cons_of_pos (by decide +kernel), ← keptOf, hq]
        rfl
      rw [hkept, hnil]
      decide
    · have hself : keptOf l = if isAttribution l then [] else [l] := by
        rw [keptOf, lines_last hl hnil, List.takeWhile_cons]
        cases isAttribution l <;> rfl
      cases hattr : isAttribution l with
      | true =>
        rw [hself, hattr, if_pos rfl, keptOf, hlines, List.takeWhile_cons_of_neg]
        rw [isAttribution_chomp, hattr]
        decide
      | false =>
        have hq : keptOf q = [] := by
          rcases h with ⟨m, hm, hcut⟩ | h
          · rw [lines_last hl hnil, List.mem_singleton] at hm
            rw [hm, hattr] at hcut
            exact absurd hcut Bool.false_ne_true
          · exact h
        have hkept : keptOf (l ++ '\n' :: '\n' :: q) = [chomp l, []] := by
          rw [keptOf, hlines, List.takeWhile_cons_of_pos (by rw [isAttribution_chomp, hattr]; rfl),
            List.takeWhile_cons_of_pos (by rw [isAttribution_nil]; rfl), ← keptOf, hq]
        rw [hkept, hself, hattr, joined_chomp]
        rfl
  | line l t hl ih =>
    rw [List.append_assoc, List.cons_append, keptOf, keptOf, lines_newline hl, lines_newline hl,
      List.takeWhile_cons, List.takeWhile_cons]
    cases hattr : isAttribution (chomp l) with
    | true => rfl
    | false =>
      refine joined_cons (ih (h.imp_left ?_))
      rintro ⟨m, hm, hcut⟩
      rw [lines_newline hl] at hm
      rcases List.mem_cons.mp hm with rfl | hm
      · rw [hattr] at hcut
        exact absurd hcut Bool.false_ne_true
      · exact ⟨m, hm, hcut⟩

/-! ### The characters that show -/

def shows (c : Char) : Bool := !isWhitespace c

theorem shows_blank (c : Char) (h : isWhitespace c = true) : shows c = false := by simp [shows, h]

theorem filter_joined (ls : List Str) : (joined ls).filter shows = ls.flatten.filter shows := by
  rw [joined, filter_trimEnd shows_blank]
  induction ls with
  | nil => rfl
  | cons l ls ih =>
    cases ls with
    | nil => simp [List.intercalate]
    | cons m ls =>
      rw [intercalate_cons, List.filter_append, List.filter_cons_of_neg (by decide), ih,
        List.flatten_cons (l := l), List.filter_append]

theorem filter_quoted {reply q : Str} (h : ∀ l ∈ lines reply, isAttribution l = false) :
    (keptOf (reply ++ '\n' :: '\n' :: q)).flatten.filter shows =
      (keptOf reply).flatten.filter shows ++ (keptOf q).flatten.filter shows := by
  have hnil : keptOf ('\n' :: q) = [] :: keptOf q := by
    rw [keptOf, ← List.nil_append ('\n' :: q), lines_newline List.not_mem_nil,
      List.takeWhile_cons_of_pos (by decide +kernel)]
    rfl
  induction reply using line_induction with
  | last l hl =>
    by_cases hl' : l = []
    · rw [hl', List.nil_append, keptOf, ← List.nil_append ('\n' :: _),
        lines_newline List.not_mem_nil, List.takeWhile_cons_of_pos
          (by decide +kernel), ← keptOf, hnil]
      rfl
    · have hattr : isAttribution l = false := h l (by rw [lines_last hl hl']; simp)
      have hself : keptOf l = [l] := by
        rw [keptOf, lines_last hl hl', List.takeWhile_cons_of_pos (by rw [hattr]; rfl)]
        rfl
      rw [keptOf, lines_newline hl,
        List.takeWhile_cons_of_pos (by rw [isAttribution_chomp, hattr]; rfl), ← keptOf, hnil, hself]
      rw [List.flatten_cons, List.filter_append, filter_chomp (by decide), List.flatten_cons,
        List.nil_append, List.flatten_singleton]
  | line l t hl ih =>
    have hlines := lines_newline hl t
    have hattr : isAttribution (chomp l) = false := h _ (by rw [hlines]; exact List.mem_cons_self)
    have hrest := ih fun m hm => h m (by rw [hlines]; exact List.mem_cons_of_mem _ hm)
    rw [List.append_assoc, List.cons_append, keptOf, keptOf, hlines, lines_newline hl,
      List.takeWhile_cons_of_pos
        (by rw [hattr]; rfl), List.takeWhile_cons_of_pos (by rw [hattr]; rfl),
      ← keptOf, ← keptOf, List.flatten_cons, List.filter_append, hrest, List.flatten_cons,
      List.filter_append, List.append_assoc]

/-! ### The quote -/

theorem lines_splitNext (s t : Str) :
    ∃ ls, lines (s ++ '\n' :: t) = chomp (splitNext '\n' s) :: ls := by
  have hfree : ∀ l u : Str, '\n' ∉ l → splitNext '\n' (l ++ '\n' :: u) = l := by
    intro l u hl
    have hne : ∀ c ∈ l, (c != '\n') = true := fun c hc =>
      bne_iff_ne.mpr fun heq => hl (heq ▸ hc)
    rw [splitNext, List.takeWhile_append_of_pos hne]
    simp
  rcases exists_line s with hs | ⟨l, u, rfl, hl⟩
  · have hself : splitNext '\n' s = s :=
      List.takeWhile_eq_self_iff.mpr fun c hc => bne_iff_ne.mpr fun heq => hs (heq ▸ hc)
    exact ⟨_, by rw [lines_newline hs, hself]⟩
  · refine ⟨lines (u ++ '\n' :: t), ?_⟩
    rw [List.append_assoc, List.cons_append, lines_newline hl, hfree l u hl]

theorem formatReplyQuote_lines (sender date body : Str) :
    ∃ ls, lines (formatReplyQuote sender date body) = chomp (attributionLine sender date) ::
      ls := by
  have htext : formatReplyQuote sender date body =
      ("On ".toList ++ date ++ ", ".toList ++ sender ++ " wrote:".toList) ++
        '\n' :: ['\n'].intercalate ((lines body).map quoteLine) := by
    have hend : " wrote:\n".toList = " wrote:".toList ++ ['\n'] := rfl
    unfold formatReplyQuote
    simp only [hend, List.append_assoc, List.singleton_append]
  rw [htext]
  exact lines_splitNext _ _

theorem mem_attributionLine (sender date : Str) : 'O' ∈ attributionLine sender date := by
  rw [attributionLine, splitNext, show "On ".toList = 'O' :: "n ".toList from rfl]
  exact List.mem_cons_self

/-- A quote comes off again exactly when the reply is cut before it, or the attribution is
still one up to its first line break. -/
theorem stripQuotedReply_round_iff (reply sender date body : Str) :
    stripQuotedReply (quotedReply reply sender date body) = stripQuotedReply reply ↔
      (∃ l ∈ lines reply, isAttribution l = true) ∨
        isAttribution (attributionLine sender date) = true := by
  obtain ⟨ls, hls⟩ := formatReplyQuote_lines sender date body
  have htext : quotedReply reply sender date body =
      reply ++ '\n' :: '\n' :: formatReplyQuote sender date body := by
    rw [quotedReply, show "\n\n".toList = ['\n', '\n'] from rfl]
    simp
  have hquote : keptOf (formatReplyQuote sender date body) =
      if isAttribution (attributionLine sender date) then []
      else chomp (attributionLine sender date) :: ls.takeWhile fun line => !isAttribution line := by
    rw [keptOf, hls, List.takeWhile_cons, isAttribution_chomp]
    cases isAttribution (attributionLine sender date) <;> rfl
  rw [stripQuotedReply_eq, stripQuotedReply_eq, htext]
  constructor
  · intro heq
    by_cases hcut : ∃ l ∈ lines reply, isAttribution l = true
    · exact Or.inl hcut
    · refine Or.inr (Decidable.byContradiction fun hattr => ?_)
      have hnone : ∀ l ∈ lines reply, isAttribution l = false := fun l hl =>
        Bool.eq_false_iff.mpr fun h => hcut ⟨l, hl, h⟩
      have hshown := congrArg (List.filter shows) heq
      rw [filter_joined, filter_joined, filter_quoted hnone, hquote, if_neg hattr] at hshown
      have hempty := List.append_right_eq_self.mp hshown
      have hmem : 'O' ∈ ((chomp (attributionLine sender date) ::
          ls.takeWhile fun line => !isAttribution line).flatten.filter shows) := by
        rw [List.flatten_cons, List.filter_append, filter_chomp (by decide)]
        refine List.mem_append_left _ (List.mem_filter.mpr ⟨mem_attributionLine sender date, ?_⟩)
        decide
      rw [hempty] at hmem
      exact List.not_mem_nil hmem
  · intro h
    refine joined_quoted (h.imp_right fun hattr => ?_)
    rw [hquote, if_pos hattr]

theorem isAttribution_line {sender date : Str} (hs : '\n' ∉ sender) (hd : '\n' ∉ date) :
    isAttribution (attributionLine sender date) = true := by
  have hline : attributionLine sender date =
      "On ".toList ++ date ++ ", ".toList ++ sender ++ " wrote:".toList := by
    refine List.takeWhile_eq_self_iff.mpr fun c hc => ?_
    have hne : c ≠ '\n' := by
      rintro rfl
      simp only [List.mem_append] at hc
      rcases hc with (((h | h) | h) | h) | h
      · exact absurd h (by decide)
      · exact hd h
      · exact absurd h (by decide)
      · exact hs h
      · exact absurd h (by decide)
    simpa using hne
  have hends : Str.trim (attributionLine sender date) = attributionLine sender date := by
    have hlast : attributionLine sender date =
        ("On ".toList ++ date ++ ", ".toList ++ sender ++ " wrote".toList) ++ [':'] := by
      rw [hline, show " wrote:".toList = " wrote".toList ++ [':'] from rfl]
      simp only [List.append_assoc]
    have hstart : trimStart (attributionLine sender date) = attributionLine sender date := by
      rw [hline]
      rfl
    rw [Str.trim, hstart, hlast, trimEnd_concat, if_neg (by decide)]
  rw [isAttribution, hends, hline]
  refine Bool.or_eq_true_iff.mpr (Or.inl (Bool.and_eq_true_iff.mpr ⟨?_, ?_⟩))
  · refine List.isPrefixOf_iff_prefix.mpr ⟨date ++ ", ".toList ++ sender ++ " wrote:".toList, ?_⟩
    simp only [List.append_assoc]
  · refine List.isSuffixOf_iff_suffix.mpr
      ⟨"On ".toList ++ date ++ ", ".toList ++ sender ++ " ".toList, ?_⟩
    rw [show " wrote:".toList = " ".toList ++ "wrote:".toList from rfl]
    simp only [List.append_assoc]

/-- A display name with a line break keeps the quote in the timeline. -/
theorem broken_name_leaks : ¬∀ reply sender date body : Str,
    stripQuotedReply (quotedReply reply sender date body) = stripQuotedReply reply := by
  intro h
  have hreply := h "ok".toList "Ann\nBee <ann@x>".toList "2026-06-17 00:07 UTC".toList "hi".toList
  exact absurd hreply (by decide +kernel)

end JmapBridge.Content
