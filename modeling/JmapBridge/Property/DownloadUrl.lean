import JmapBridge.Model.Download

/-! The download URL against the expansion of its template. The three replacements are one
simultaneous expansion, whatever the values are; the variable `type` is not among them. -/

namespace JmapBridge.Download

open Rust Rust.Str

/-- The variables of a download URL template. -/
inductive DownloadVar where
  | accountId
  | blobId
  | type
  | name
deriving DecidableEq, Repr

def DownloadVar.inner : DownloadVar → Str
  | accountId => "accountId".toList
  | blobId => "blobId".toList
  | type => "type".toList
  | name => "name".toList

/-- The variable as it stands in a template. -/
def DownloadVar.text (v : DownloadVar) : Str := '{' :: (v.inner ++ ['}'])

/-- A text that a template has between its variables. -/
structure Plain where
  text : Str
  opens : '{' ∉ text
  closes : '}' ∉ text

inductive Piece where
  | plain (p : Plain)
  | var (v : DownloadVar)

def Piece.text : Piece → Str
  | plain p => p.text
  | var v => v.text

def piecesText (l : List Piece) : Str := l.flatMap Piece.text

/-- A download URL template has each of the variables. -/
structure DownloadTemplate where
  pieces : List Piece
  complete : ∀ v, .var v ∈ pieces

def DownloadTemplate.text (t : DownloadTemplate) : Str := piecesText t.pieces

/-- All variables replaced at once. -/
def DownloadTemplate.expand (t : DownloadTemplate) (values : DownloadVar → Str) : Str :=
  t.pieces.flatMap fun
    | .plain p => p.text
    | .var v => values v

/-- The values of an attachment. -/
def valuesOf (accountId : Str) (part : EmailBodyPart) : DownloadVar → Str
  | .accountId => accountId
  | .blobId => (part.blobId.getD "").toList
  | .type => (part.contentType.getD "application/octet-stream").toList
  | .name => (part.name.getD "📎 attachment").toList

/-- `url` is the template with its variables expanded, `segments` being the path segments
that a URL is parsed to. -/
structure Expanded (segments : Str → List Str) (t : DownloadTemplate) (values : DownloadVar → Str)
    (url : Str) : Prop where
  complete : ∀ v : DownloadVar, ¬ v.text <:+: url
  inPlace : url = t.expand fun v => enc (values v)
  path : (segments url).length = (segments t.text).length

/-! ### Values have no braces -/

theorem hexDigit_ne {n : Nat} (h : n < 16) : hexDigit n ≠ '{' := by
  have hall : ∀ k : Fin 16, hexDigit k ≠ '{' := by decide
  exact hall ⟨n, h⟩

theorem open_not_mem_percentByte (b : UInt8) : '{' ∉ percentByte b := by
  have hb := b.toNat_lt
  have hhigh : '{' ≠ hexDigit (b.toNat / 16) := (hexDigit_ne (by omega)).symm
  have hlow : '{' ≠ hexDigit (b.toNat % 16) := (hexDigit_ne (by omega)).symm
  simp [percentByte, hhigh, hlow]

theorem open_not_mem_enc (s : Str) : '{' ∉ enc s := by
  intro hmem
  obtain ⟨b, -, hb⟩ := List.mem_flatMap.mp hmem
  split at hb
  · exact open_not_mem_percentByte b hb
  · rename_i hplain
    rw [Bool.not_eq_true, Bool.or_eq_false_iff, decide_eq_false_iff_not] at hplain
    obtain ⟨hascii, hfree⟩ := hplain
    have hchar : Char.ofNat b.toNat = '{' := (List.mem_singleton.mp hb).symm
    have honly : ∀ k : Fin 128, Char.ofNat k = '{' → (k : Nat) = 123 := by decide
    have hnat : b.toNat = 123 := honly ⟨b.toNat, UInt8.not_le.mp hascii⟩ hchar
    obtain rfl : b = 123 := UInt8.toNat_inj.mp hnat
    exact absurd hfree (by decide)

/-! ### One replacement after the other -/

/-- The template with the variables that `f` knows replaced. -/
def filled (f : DownloadVar → Option Str) (l : List Piece) : Str :=
  l.flatMap fun
    | .plain p => p.text
    | .var v => (f v).getD v.text

theorem filled_plain (f : DownloadVar → Option Str) (p : Plain) (l : List Piece) :
    filled f (.plain p :: l) = p.text ++ filled f l := rfl

theorem filled_var (f : DownloadVar → Option Str) (v : DownloadVar) (l : List Piece) :
    filled f (.var v :: l) = (f v).getD v.text ++ filled f l := rfl

theorem filled_none (l : List Piece) : filled (fun _ => none) l = piecesText l := by
  induction l with
  | nil => rfl
  | cons x l ih =>
    show _ ++ filled (fun _ => none) l = x.text ++ piecesText l
    rw [ih]
    cases x <;> rfl

theorem text_apart {u v : DownloadVar} (h : u ≠ v) (s : Str) :
    v.text.isPrefixOf (u.text ++ s) = false := by
  cases u <;> cases v <;> first | rfl | exact absurd rfl h

theorem open_not_mem_inner (v : DownloadVar) : '{' ∉ v.inner ++ ['}'] := by
  cases v <;> decide

/-- A variable that is not replaced yet is replaced in all its places, and nowhere else. -/
theorem replace_filled {f : DownloadVar → Option Str} (hf : ∀ u x, f u = some x → '{' ∉ x)
    {v : DownloadVar} (hv : f v = none) (new : Str) (l : List Piece) :
    replace v.text new (filled f l) = filled (Function.update f v (some new)) l := by
  induction l with
  | nil => rfl
  | cons x l ih =>
    cases x with
    | plain p =>
      rw [filled_plain, filled_plain, ← ih]
      exact replace_free p.opens _ new _
    | var u =>
      rw [filled_var, filled_var]
      by_cases huv : u = v
      · subst huv
        rw [hv, Function.update_self, ← ih]
        exact replace_hit (by simp [DownloadVar.text]) new _
      · rw [Function.update_of_ne huv, ← ih]
        cases hfu : f u with
        | some x => exact replace_free (hf u x hfu) _ new _
        | none =>
          have hpass : replace v.text new ('{' :: ((u.inner ++ ['}']) ++ filled f l)) =
              '{' :: replace v.text new ((u.inner ++ ['}']) ++ filled f l) :=
            replace_pass (text_apart huv (filled f l)) new
          refine hpass.trans ?_
          exact congrArg ('{' :: ·) (replace_free (open_not_mem_inner u) _ new _)

/-- What the three replacements put in the place of a variable. -/
def replaced (accountId blobId fileName : Str) : DownloadVar → Option Str
  | .accountId => some (enc accountId)
  | .blobId => some (enc blobId)
  | .name => some (enc fileName)
  | .type => none

theorem downloadUrl_filled (t : DownloadTemplate) (accountId blobId fileName : Str) :
    downloadUrl t.text accountId blobId fileName =
      filled (replaced accountId blobId fileName) t.pieces := by
  have hclosed : ∀ {f : DownloadVar → Option Str}, (∀ u x, f u = some x → '{' ∉ x) →
      ∀ v s u x, Function.update f v (some (enc s)) u = some x → '{' ∉ x := by
    intro f hf v s u x hx
    by_cases huv : u = v
    · rw [huv, Function.update_self] at hx
      exact Option.some.inj hx ▸ open_not_mem_enc s
    · rw [Function.update_of_ne huv] at hx
      exact hf u x hx
  have hnone :
      ∀ (u : DownloadVar) (x : Str), (fun _ : DownloadVar => (none : Option Str)) u = some x →
      '{' ∉ x := nofun
  have haccount := hclosed hnone .accountId accountId
  have hblob := hclosed haccount .blobId blobId
  have hall : Function.update (Function.update (Function.update (fun _ => none) .accountId
      (some (enc accountId))) .blobId (some (enc blobId))) .name (some (enc fileName)) =
      replaced accountId blobId fileName := by
    funext v
    cases v <;> rfl
  rw [← hall, ← replace_filled hblob rfl, ← replace_filled haccount rfl, ← replace_filled hnone rfl,
    filled_none]
  rfl

theorem infix_filled {f : DownloadVar → Option Str} {v : DownloadVar} (hf : f v = none)
    {l : List Piece} (hv : .var v ∈ l) : v.text <:+: filled f l := by
  obtain ⟨a, b, rfl⟩ := List.append_of_mem hv
  have hsplit : filled f (a ++ .var v :: b) = filled f a ++ filled f (.var v :: b) :=
    List.flatMap_append
  refine ⟨filled f a, filled f b, ?_⟩
  rw [hsplit, filled_var, hf, Option.getD_none, List.append_assoc]

/-- The URL has the account, the blob and the name escaped in the places of their variables
and only there; the variable `type` stands in it, whatever the template and the values. -/
theorem url_never_expanded (segments : Str → List Str) (t : DownloadTemplate) (accountId : Str)
    (part : EmailBodyPart) (blobId : String) :
    attachmentUrl t.text accountId { part with blobId := some blobId } = some (t.expand fun v =>
        if v = .type then v.text else enc
          (valuesOf accountId { part with blobId := some blobId } v)) ∧
      ¬ ∃ url, attachmentUrl t.text accountId { part with blobId := some blobId } = some url ∧
        Expanded segments t (valuesOf accountId { part with blobId := some blobId }) url := by
  have hurl : attachmentUrl t.text accountId { part with blobId := some blobId } =
      some (filled
        (replaced accountId blobId.toList (part.name.getD "📎 attachment").toList) t.pieces) :=
    congrArg some (downloadUrl_filled t accountId blobId.toList _)
  refine ⟨?_, ?_⟩
  · rw [hurl, filled, DownloadTemplate.expand]
    refine congrArg some (congrArg (List.flatMap · t.pieces) (funext fun x => ?_))
    cases x with
    | plain p => rfl
    | var v => cases v <;> rfl
  · rintro ⟨url, hsome, hexpanded⟩
    rw [hurl] at hsome
    obtain rfl := Option.some.inj hsome
    exact hexpanded.complete .type (infix_filled rfl (t.complete .type))

/-- A template with the variables in the path and in the query. -/
def queryTemplate : DownloadTemplate where
  pieces := [.plain ⟨"https://mail.test/".toList, by decide, by decide⟩, .var .accountId,
    .plain ⟨"/".toList, by decide, by decide⟩, .var .blobId,
    .plain ⟨"/".toList, by decide, by decide⟩, .var .name,
    .plain ⟨"?accept=".toList, by decide, by decide⟩, .var .type]
  complete v := by cases v <;> simp

theorem type_is_left_in : ¬ ∀ segments (t : DownloadTemplate) accountId part url,
    attachmentUrl t.text accountId part = some url →
      Expanded segments t (valuesOf accountId part) url := by
  intro h
  have hurl : attachmentUrl queryTemplate.text "u1".toList
      { blobId := some "b1", name := some "a.txt", contentType := some "text/plain" } =
        some "https://mail.test/u1/b1/a.txt?accept={type}".toList := by decide
  exact (h (fun _ => []) _ _ _ _ hurl).complete .type
    ⟨"https://mail.test/u1/b1/a.txt?accept=".toList, [], rfl⟩

end JmapBridge.Download
