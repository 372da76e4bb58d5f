import JmapBridge.Rust.Scan

/-! The content pipeline of an email body: the scanners that rewrite its HTML, byte
offset by byte offset, and the texts they come to. -/

namespace JmapBridge.Content

open Rust Rust.Str Rust.Scan

inductive RenderMode where
  | plain
  | links
  | rich
deriving DecidableEq, Repr

/-! ### Bytes and tags -/

def lt : UInt8 := '<'.toUInt8

/-- `u8::is_ascii_whitespace`. -/
def isAsciiWhitespace (b : UInt8) : Bool := b == 32 || b == 9 || b == 10 || b == 12 || b == 13

/-- `b' ' | b'\t' | b'\n' | b'\r'`. -/
def isBlank (b : UInt8) : Bool := b == 32 || b == 9 || b == 10 || b == 13

def toLowerByte (b : UInt8) : UInt8 := if 65 ≤ b && b ≤ 90 then b + 32 else b

/-- `<[u8]>::eq_ignore_ascii_case`. -/
def eqBytes (xs ys : List UInt8) : Bool := xs.map toLowerByte == ys.map toLowerByte

def findCi (haystack needle : List UInt8) (start : Nat) : Scan (Option Nat) :=
  if needle.isEmpty || haystack.length < needle.length ||
      usizeSub haystack.length needle.length < start then
    pure none
  else
    (List.range' start (usizeSub haystack.length needle.length + 1 - start)).findM? fun i => do
      let window ← sliceList haystack i (i + needle.length)
      return eqBytes window needle

def looksLikeHtmlTags : List String :=
  ["<div", "<p>", "<p ", "<br", "<a ", "<a>", "<table", "<td", "<tr", "<span", "<img", "<ul", "<ol",
    "<li", "<blockquote", "<figure", "<h1", "<h2", "<h3", "<h4", "<strong", "<em>", "<b>", "<i>",
    "<html", "<body", "<head", "<style", "<font", "<center"]

def looksLikeHtml (s : Str) : Scan Bool :=
  looksLikeHtmlTags.anyM fun t => do
    let at? ← findCi (bytes s) (bytes t.toList) 0
    return at?.isSome

/-- What may follow a complete tag name. -/
def isTagBoundary (b : UInt8) : Bool := b == '>'.toUInt8 || b == '/'.toUInt8 || isBlank b

def startsTag (rest : Str) (name : String) : Scan Bool := do
  let needle := bytes name.toList
  if (bytes rest).length < needle.length then
    return false
  else
    let head ← sliceList (bytes rest) 0 needle.length
    return eqBytes head needle && ((bytes rest)[needle.length]?).all isTagBoundary

/-- `starts_tag` of one of the names, tried in order. -/
def startsAny (rest : Str) (names : List String) : Scan Bool := names.anyM (startsTag rest)

/-- The character at a byte offset, a space at the end. -/
def charAt (s : Str) (i : Nat) : Scan Char := do
  let rest ← sliceFrom s i
  return rest.head?.getD ' '

/-- The offset after the tag that begins at `i`, the end where it is not closed. -/
def tagEnd (s : Str) (i : Nat) : Scan Nat := do
  let rest ← sliceFrom s i
  return ((find (· == '>') rest).map fun g => i + g + 1).getD (byteLen s)

/-- `while k < bytes.len() && p(bytes[k])`. -/
def skipBytes (p : UInt8 → Bool) (xs : List UInt8) (k : Nat) : Scan Nat :=
  loop (fun k => do
    if k < xs.length then
      let b ← index xs k
      return if p b then .again (k + 1) else .done k
    else
      return .done k) k

def nextIsDivOpen (html : Str) (k : Nat) : Scan Bool :=
  loop (fun k => do
    let k ← skipBytes isAsciiWhitespace (bytes html) k
    let rest ← sliceFrom html k
    if startsWith "<!--".toList rest then
      return .again (((findStr "-->".toList rest).map fun p => k + p + 3).getD (byteLen html))
    else
      let isDiv ← startsTag rest "<div"
      return .done isDiv) k

def tableOpenTags : List String :=
  ["<table", "<tbody", "<thead", "<tfoot", "<tr", "<td", "<th", "<caption", "<col", "<colgroup"]

def rowCloseTags : List String := ["</tr", "</table", "</tbody", "</thead", "</tfoot", "</caption"]

def separateTableBlocks (html : Str) (mode : RenderMode) : Scan Str :=
  let breakDivs := mode == .links
  loop (fun (out, i) => do
    if i < (bytes html).length then
      let b ← index (bytes html) i
      if b != lt then
        let ch ← charAt html i
        return .again (out ++ [ch], i + ch.utf8Size)
      else
        let rest ← sliceFrom html i
        let stop ← tagEnd html i
        -- A cell close keeps the text apart, a row, table or section close breaks the line.
        if ← startsAny rest ["</td", "</th"] then
          return .again (out ++ " ".toList, stop)
        else if ← startsAny rest rowCloseTags then
          return .again (out ++ "<br>".toList, stop)
        else if breakDivs && (← startsTag rest "</div") then
          let sibling ← nextIsDivOpen html stop
          return .again (out ++ (if sibling then "<br><br>" else "<br>").toList, stop)
        else if breakDivs && (← startsTag rest "<div") then
          return .again (out, stop)
        else if ← startsAny rest tableOpenTags then
          return .again (out, stop)
        else
          let tag ← slice html i stop
          return .again (out ++ tag, stop)
    else
      return .done out) ([], 0)

/-! ### Breaks beside blocks -/

def blockTags : List String :=
  ["p", "h1", "h2", "h3", "h4", "h5", "h6", "ul", "ol", "li", "blockquote", "pre", "hr", "details",
    "summary"]

def headingTags : List String := ["h1", "h2", "h3", "h4", "h5", "h6"]

/-- The name of the tag with `inner` between its brackets. -/
def tagName (inner : Str) : Str :=
  toAsciiLowercase (splitFirst (fun c => isWhitespace c || c == '/' || c == '>')
    (trimStartMatches '/' inner))

def lastTagName (out : Str) : Scan (Option Str) :=
  let t := trimEnd out
  if endsWith ">".toList t then
    match rfind (· == '<') t with
    | none => pure none
    | some start => do
      let inner ← slice t (start + 1) (usizeSub (byteLen t) 1)
      return some (tagName inner)
  else pure none

def firstTagName (rest : Str) : Scan (Option Str) :=
  match trimStart rest with
  | '<' :: s =>
    match find (· == '>') s with
    | none => pure none
    | some close => do
      let inner ← slice ('<' :: s) 1 (close + 1)
      return some (tagName inner)
  | _ => pure none

def brRunEnd (s : Str) (i : Nat) : Scan (Option Nat) :=
  loop (fun (j, found) => do
    let k ← skipBytes isBlank (bytes s) j
    let rest ← sliceFrom s k
    if startsWith "<br>".toList rest then
      return .again (k + 4, true)
    else
      return .done (if found then some j else none)) (i, false)

def nameIn (name : Option Str) (set : List String) : Bool :=
  name.any fun n => set.any fun t => t.toList == n

def stripBlockAdjacentBreaks (s : Str) : Scan Str :=
  loop (fun (out, i) => do
    if i < byteLen s then
      match ← brRunEnd s i with
      | some runEnd =>
        let before ← lastTagName out
        let rest ← sliceFrom s runEnd
        let after ← firstTagName rest
        let touchesHeading := nameIn before headingTags || nameIn after headingTags
        let touchesBlock := nameIn before blockTags || nameIn after blockTags
        if touchesHeading || !touchesBlock then
          let run ← slice s i runEnd
          return .again (out ++ run, runEnd)
        else
          return .again (out, runEnd)
      | none =>
        let ch ← charAt s i
        return .again (out ++ [ch], i + ch.utf8Size)
    else
      return .done out) ([], 0)

/-! ### Blank content -/

def blankEntities : List String := ["&nbsp;", "&#160;", "&#xA0;", "&#xa0;"]

def blankUnitLen (s : Str) : Option Nat :=
  match s.head?.filter isWhitespace with
  | some c => some c.utf8Size
  | none =>
    (blankEntities.find? fun ent => startsWith ent.toList s).map fun ent => byteLen ent.toList

/-- The loop over the blank units from `j`, with `count` of them behind it. -/
def blankRun (s : Str) (j : Nat) (count : Int32) : Scan (Nat × Int32) :=
  loop (fun (j, count) => do
    let rest ← sliceFrom s j
    match blankUnitLen rest with
    | some n => return .again (j + n, count + 1)
    | none => return .done (j, count)) (j, count)

def collapseBlankRuns (s : Str) : Scan Str :=
  loop (fun (out, i) => do
    if i < byteLen s then
      let rest ← sliceFrom s i
      match blankUnitLen rest with
      | some first =>
        let (j, count) ← blankRun s (i + first) 1
        if 2 ≤ count then
          return .again (out ++ " ".toList, j)
        else
          let run ← slice s i j
          return .again (out ++ run, j)
      | none =>
        let ch ← charAt s i
        return .again (out ++ [ch], i + ch.utf8Size)
    else
      return .done out) ([], 0)

def invisibleChars : List Char :=
  ['\u00AD', '\u034F', '\u200B', '\u200C', '\u200D', '\u2060', '\uFEFF', '\u180E']

def stripInvisibles (s : Str) : Str :=
  if s.any invisibleChars.contains then s.filter fun c => !invisibleChars.contains c else s

/-! ### Empty elements -/

def prunableWhenEmpty : List String :=
  ["a", "h1", "h2", "h3", "h4", "h5", "h6", "p", "span", "div", "b", "i", "u", "strong", "em", "s",
    "del", "sub", "sup", "code", "blockquote", "ul", "ol", "li", "pre", "details", "summary",
    "caption"]

def prunableOpenName (rest : Str) : Scan (Option String) :=
  if startsWith "</".toList rest then pure none
  else prunableWhenEmpty.findM? fun n => startsTag rest ("<" ++ n)

/-- The whitespace from `k`. -/
def skipWhitespace (html : Str) (k : Nat) : Scan Nat :=
  loop (fun k => do
    let rest ← sliceFrom html k
    match rest.head?.filter isWhitespace with
    | some c => return .again (k + c.utf8Size)
    | none => return .done k) k

def skipEntity (html : Str) (k : Nat) (ent : String) : Scan Nat := do
  let rest ← sliceFrom html k
  return if startsWith ent.toList rest then k + byteLen ent.toList else k

def skipBlankContent (html : Str) (k : Nat) : Scan Nat :=
  loop (fun start => do
    let k ← skipWhitespace html start
    let k ← blankEntities.foldlM (skipEntity html) k
    return if k = start then .done k else .again k) k

/-- `tail` begins with the close tag of `name`. -/
def matchesClose (tail : Str) (name : String) : Scan Bool := do
  let close := bytes ("</" ++ name).toList
  if (bytes tail).length < close.length then
    return false
  else
    let head ← sliceList (bytes tail) 0 close.length
    return eqBytes head close && ((bytes tail)[close.length]?).any isTagBoundary

/-- The offset after the empty prunable element with its open tag from `i` to `openEnd`. -/
def emptyElementEnd (html rest : Str) (openEnd : Nat) : Scan (Option Nat) := do
  match ← prunableOpenName rest with
  | none => return none
  | some name =>
    let afterBlank ← skipBlankContent html openEnd
    let tail ← sliceFrom html afterBlank
    if ← matchesClose tail name then
      return (find (· == '>') tail).map fun cgt => afterBlank + cgt + 1
    else
      return none

def pruneEmptyOnce (html : Str) : Scan (Str × Bool) :=
  loop (fun (out, i, changed) => do
    if i < (bytes html).length then
      let b ← index (bytes html) i
      if b != lt then
        let ch ← charAt html i
        return .again (out ++ [ch], i + ch.utf8Size, changed)
      else
        let rest ← sliceFrom html i
        match find (· == '>') rest with
        | none => return .done (out ++ rest, changed)
        | some gt =>
          let openEnd := i + gt + 1
          match ← emptyElementEnd html rest openEnd with
          | some stop => return .again (out, stop, true)
          | none =>
            let tag ← slice html i openEnd
            return .again (out ++ tag, openEnd, changed)
    else
      return .done (out, changed)) ([], 0, false)

def pruneRounds : Nat → Str → Scan Str
  | 0, cur => pure cur
  | n + 1, cur => do
    let (next, changed) ← pruneEmptyOnce cur
    if changed then pruneRounds n next else return next

def pruneEmptyElements (html : Str) : Scan Str := pruneRounds 32 html

/-- `while html[k..].starts_with("<br>")`, and the blank content after each. -/
def skipBreaks (html : Str) (k : Nat) : Scan Nat :=
  loop (fun k => do
    let rest ← sliceFrom html k
    if startsWith "<br>".toList rest then
      let k ← skipBlankContent html (k + 4)
      return .again k
    else
      return .done k) k

/-- The offset after the link that begins at `i`, if it holds blank content and breaks only. -/
def emptyLinkEnd (html rest : Str) (i : Nat) : Scan (Option Nat) := do
  if ← startsTag rest "<a" then
    match find (· == '>') rest with
    | none => return none
    | some gt =>
      let k ← skipBlankContent html (i + gt + 1)
      let k ← skipBreaks html k
      match (Str.sliceFrom k html).toOption with
      | none => return none
      | some tail =>
        if ← startsTag tail "</a" then
          return (find (· == '>') tail).map fun cgt => k + cgt + 1
        else
          return none
  else
    return none

def pruneBrOnlyLinks (html : Str) : Scan Str :=
  loop (fun (out, i) => do
    if i < (bytes html).length then
      let rest ← sliceFrom html i
      match ← emptyLinkEnd html rest i with
      | some stop => return .again (out, stop)
      | none =>
        let ch ← charAt html i
        return .again (out ++ [ch], i + ch.utf8Size)
    else
      return .done out) ([], 0)

def unwrapLiParagraphs (html : Str) : Scan Str :=
  loop (fun (out, i, liDepth) => do
    if i < (bytes html).length then
      let b ← index (bytes html) i
      if b == lt then
        let rest ← sliceFrom html i
        let stop ← tagEnd html i
        if ← startsTag rest "<li" then
          let tag ← slice html i stop
          return .again (out ++ tag, stop, liDepth + 1)
        else if ← startsTag rest "</li" then
          let tag ← slice html i stop
          return .again (out ++ tag, stop, if liDepth = 0 then 0 else liDepth - 1)
        else if (0 : UInt32) < liDepth && (← startsAny rest ["<p", "</p"]) then
          return .again (out, stop, liDepth)
        else
          let tag ← slice html i stop
          return .again (out ++ tag, stop, liDepth)
      else
        let ch ← charAt html i
        return .again (out ++ [ch], i + ch.utf8Size, liDepth)
    else
      return .done out) ([], 0, (0 : UInt32))

/-! ### Reply quotes -/

def replyMarkers : List String := ["type=\"cite\"", "type='cite'", "type=cite", "_quote"]

def isReplyTag (openTag : Str) : Bool :=
  replyMarkers.any fun m => contains m.toList (toAsciiLowercase openTag)

def blockquoteOpen : List UInt8 := bytes "<blockquote".toList

def blockquoteClose : List UInt8 := bytes "</blockquote".toList

/-- The end of the quote whose open tag ends at `j`. -/
def skipQuote (html : Str) (j : Nat) : Scan Nat :=
  loop (fun (j, depth) => do
    if j < (bytes html).length && (0 : UInt32) < depth then
      let nextOpen ← findCi (bytes html) blockquoteOpen j
      let nextClose ← findCi (bytes html) blockquoteClose j
      match nextOpen, nextClose with
      | some o, some c =>
        if o < c then
          return .again (o + blockquoteOpen.length, depth + 1)
        else
          let stop ← tagEnd html c
          return .again (stop, depth - 1)
      | none, some c =>
        let stop ← tagEnd html c
        return .again (stop, depth - 1)
      | some o, none => return .again (o + blockquoteOpen.length, depth + 1)
      | none, none => return .again ((bytes html).length, depth)
    else
      return .done j) (j, (1 : UInt32))

def stripReplyBlockquotes (html : Str) : Scan Str :=
  loop (fun (out, i) => do
    if i < (bytes html).length then
      match ← findCi (bytes html) blockquoteOpen i with
      | none =>
        let rest ← sliceFrom html i
        return .done (out ++ rest)
      | some start =>
        let fromOpen ← sliceFrom html start
        match find (· == '>') fromOpen with
        | none =>
          let rest ← sliceFrom html i
          return .done (out ++ rest)
        | some gt =>
          let stop := start + gt + 1
          let openTag ← slice html start stop
          if !isReplyTag openTag then
            let kept ← slice html i stop
            return .again (out ++ kept, stop)
          else
            let before ← slice html i start
            let j ← skipQuote html stop
            return .again (out ++ before, j)
    else
      return .done out) ([], 0)

/-! ### Runs of breaks -/

def br : Str := "<br>".toList

def foldBreaks (s : Str) : Scan Str :=
  loop (fun (out, i, run) => do
    if i < byteLen s then
      let j ← skipBytes isBlank (bytes s) i
      let rest ← sliceFrom s j
      if startsWith br rest then
        return .again (if run + 1 ≤ (2 : UInt32) then out ++ br else out, j + byteLen br, run + 1)
      else
        let ch ← charAt s i
        return .again (out ++ [ch], i + ch.utf8Size, (0 : UInt32))
    else
      return .done out) ([], 0, (0 : UInt32))

def dropTrailingBreaks (out : Str) : Scan Str :=
  loop (fun out => do
    if endsWith br out then
      let out ← truncate out (usizeSub (byteLen out) (byteLen br))
      return .again out
    else
      return .done out) out

def dropLeadingBreaks (out : Str) : Scan Str :=
  loop (fun out => do
    if startsWith br out then
      let rest ← sliceFrom out (byteLen br)
      return .again (trimStart rest)
    else
      return .done out) out

def collapseBreaks (s : Str) : Scan Str := do
  let out ← foldBreaks s
  let out ← dropTrailingBreaks out
  dropLeadingBreaks (Str.trim out)

/-! ### Images -/

structure RemoteImg where
  url : Str
  isDecorative : Bool
deriving DecidableEq, Repr

/-- What may stand before the name of an attribute. -/
def isAttrBoundary (b : UInt8) : Bool :=
  isBlank b || b == '"'.toUInt8 || b == '\''.toUInt8 || b == '/'.toUInt8

def isUnquotedEnd (c : Char) : Bool := isWhitespace c || c == '>' || c == '/'

/-- Whether the name found at `pos` stands where an attribute begins. -/
def attrStarts (xs : List UInt8) (pos : Nat) : Scan Bool :=
  if pos = 0 then pure true
  else do
    let b ← index xs (usizeSub pos 1)
    return isAttrBoundary b

/-- Where the value at `k` starts, and the quote it stands in. -/
def quoteAt (xs : List UInt8) (k : Nat) : Nat × Option Char :=
  match xs[k]? with
  | some b =>
    if b == '"'.toUInt8 then (k + 1, some '"')
    else if b == '\''.toUInt8 then (k + 1, some '\'')
    else (k, none)
  | none => (k, none)

/-- Whether `c` ends a value that stands in `quote`. -/
def endsValue (quote : Option Char) (c : Char) : Bool :=
  match quote with
  | some q => c == q
  | none => isUnquotedEnd c

/-- The value after the `=` at `k`, and its range. -/
def attrValue (tag : Str) (k : Nat) : Scan (Str × Nat × Nat) := do
  let k ← skipBytes isBlank (bytes tag) (k + 1)
  let start := (quoteAt (bytes tag) k).1
  let rest ← sliceFrom tag start
  let found := find (endsValue (quoteAt (bytes tag) k).2) rest
  let stop := start + found.getD (usizeSub (byteLen tag) start)
  let value ← slice tag start stop
  return (value, start, stop)

def tagAttr (tag : Str) (name : String) : Scan (Option (Str × Nat × Nat)) :=
  loop (fun search => do
    let tail ← sliceList (bytes tag) search (bytes tag).length
    match ← findCi tail (bytes name.toList) 0 with
    | none => return .done none
    | some rel =>
      let pos := search + rel
      let beforeOk ← attrStarts (bytes tag) pos
      let k ← skipBytes (fun b => b == 32 || b == 9) (bytes tag) (pos + byteLen name.toList)
      if beforeOk && (bytes tag)[k]? == some '='.toUInt8 then
        let found ← attrValue tag k
        return .done (some found)
      else
        return .again (pos + byteLen name.toList)) 0

def imgDimension (tag : Str) (name : String) : Scan (Option Nat) := do
  let found ← tagAttr tag name
  return found.bind fun r => parseU32 (Str.trim r.1)

def trackerUrlMarkers : List String :=
  ["servlet.imageserver", "/track/open", "/wf/open", "list-manage.com/track", "/open.aspx",
    "/open.php", "google-analytics.com", "googleadservices.com", "doubleclick.net", "emltrk.com",
    "mailstat.us", "/pixel.gif", "/pixel.png", "utm.gif"]

def isTrackingPixel (tag : Str) : Scan Bool := do
  let found ← tagAttr tag "src"
  return found.any fun r =>
    trackerUrlMarkers.any fun m => contains m.toList (toAsciiLowercase r.1)

def isDecorativeImg (tag : Str) : Scan Bool := do
  let w ← imgDimension tag "width"
  let h ← imgDimension tag "height"
  let spacer := w.any (· ≤ 2) || h.any (· ≤ 2)
  let tinyIcon := (w.any (· ≤ 48) && h.any (· ≤ 48)) || (w.any (· ≤ 48) && h.isNone) ||
    (h.any (· ≤ 48) && w.isNone)
  if spacer || tinyIcon then return true else isTrackingPixel tag

def hasVisibleText (html : Str) : Scan Bool :=
  loop (fun i => do
    if i < (bytes html).length then
      let b ← index (bytes html) i
      if b == lt then
        let stop ← tagEnd html i
        return .again stop
      else
        let rest ← sliceFrom html i
        match blankUnitLen rest with
        | some n => return .again (i + n)
        | none => return .done true
    else
      return .done false) 0

/-- What `chrome_image_offsets` has seen so far. -/
structure ChromeScan where
  chrome : List Nat := []
  seenText : Bool := false
  liLeading : Bool := false
  aOpen : Bool := false
  aText : Bool := false
  aImgs : List Nat := []
  chain : List Nat := []
  chainLive : Bool := false
deriving DecidableEq, Repr

def ChromeScan.flushLinkChain (st : ChromeScan) : ChromeScan :=
  { st with
    chrome := if 2 ≤ st.chain.length then st.chrome ++ st.chain else st.chrome
    chain := [] }

/-- The end of a strip of linked images. -/
def ChromeScan.breakStrip (st : ChromeScan) : ChromeScan :=
  { st.flushLinkChain with chainLive := false }

def ChromeScan.text (st : ChromeScan) : ChromeScan :=
  { st.breakStrip with
    seenText := true
    liLeading := false
    aText := if st.aOpen then true else st.aText }

def ChromeScan.img (st : ChromeScan) (docHasText : Bool) (i : Nat) : ChromeScan :=
  let st :=
    if docHasText && !st.seenText || st.liLeading then { st with chrome := st.chrome ++ [i] }
    else st
  let st := { st with liLeading := false }
  if st.aOpen then { st with aImgs := st.aImgs ++ [i] } else st.breakStrip

/-- What the link that ends is: a strip, a link of a strip, or neither. -/
def ChromeScan.endLink (st : ChromeScan) : Scan ChromeScan :=
  if !st.aText && 2 ≤ st.aImgs.length then
    pure { st with chrome := st.chrome ++ st.aImgs }.breakStrip
  else if !st.aText && st.aImgs.length = 1 then do
    let first ← index st.aImgs 0
    let st := if st.chainLive then st else st.flushLinkChain
    return { st with chain := st.chain ++ [first], chainLive := true }
  else
    pure st.breakStrip

def ChromeScan.closeA (st : ChromeScan) : Scan ChromeScan :=
  if st.aOpen then do
    let st ← st.endLink
    return { st with aOpen := false, aImgs := [] }
  else
    pure st

def ChromeScan.openA (st : ChromeScan) : ChromeScan :=
  { st with aOpen := true, aText := false, aImgs := [] }

/-- One tag of the body, the one at `i` with `rest` from there. -/
def ChromeScan.tag (st : ChromeScan) (docHasText : Bool) (rest : Str) (i : Nat) :
    Scan ChromeScan := do
  if ← startsTag rest "<img" then
    return st.img docHasText i
  else if ← startsTag rest "</a" then
    st.closeA
  else if ← startsTag rest "<a" then
    return st.openA
  else if ← startsTag rest "<br" then
    return st
  else
    let isLi ← startsTag rest "<li"
    return if isLi then { st.breakStrip with liLeading := true } else st.breakStrip

def chromeImageOffsets (html : Str) : Scan (List Nat) := do
  let docHasText ← hasVisibleText html
  loop (fun (st, i) => do
    if i < (bytes html).length then
      let b ← index (bytes html) i
      if b != lt then
        let rest ← sliceFrom html i
        match blankUnitLen rest with
        | some n => return .again (st, i + n)
        | none =>
          let ch ← charAt html i
          return .again (st.text, i + ch.utf8Size)
      else
        let rest ← sliceFrom html i
        let stop ← tagEnd html i
        let st ← st.tag docHasText rest i
        return .again (st, stop)
    else
      return .done st.flushLinkChain.chrome) (({} : ChromeScan), 0)

/-- The next `<img` tag from `i`: where it begins, where it ends, its text. -/
def nextImg (html : Str) (i : Nat) : Scan (Option (Nat × Nat × Str)) := do
  let tail ← sliceList (bytes html) i (bytes html).length
  match ← findCi tail (bytes "<img".toList) 0 with
  | none => return none
  | some rel =>
    let start := i + rel
    let stop ← tagEnd html start
    let tag ← slice html start stop
    return some (start, stop, tag)

def isRemote (src : Str) : Bool :=
  let lower := toAsciiLowercase (Str.trim src)
  startsWith "http://".toList lower || startsWith "https://".toList lower

def extractRemoteImages (html : Str) : Scan (List RemoteImg) := do
  let chrome ← chromeImageOffsets html
  loop (fun (out, i) => do
    match ← nextImg html i with
    | none => return .done out
    | some (start, stop, tag) =>
      match ← tagAttr tag "src" with
      | none => return .again (out, stop)
      | some (src, _) =>
        if isRemote src && !out.any fun r => r.url == src then
          let decorative ← isDecorativeImg tag
          return .again
            (out ++ [{ url := src, isDecorative := decorative || chrome.contains start }],
            stop)
        else
          return .again (out, stop)) ([], 0)

def imageMarker : Str := "🖼️".toList

/-- What `placeholder_remote_images` has written, and the `src` of the images it marked. -/
structure Marked where
  out : Str := []
  marks : List Str := []
deriving DecidableEq, Repr

/-- Whether the `<img` at `start` is remote, neither a tracker nor chrome. -/
def earnsMarker (chrome : List Nat) (start : Nat) (src tag : Str) : Scan Bool :=
  if isRemote src then do
    let decorative ← isDecorativeImg tag
    return !decorative && !chrome.contains start
  else pure false

/-- `placeholder_remote_images`, with the sources of the images that get a marker. -/
def markRemoteImages (html : Str) : Scan Marked := do
  let chrome ← chromeImageOffsets html
  loop (fun (m, i) => do
    match ← nextImg html i with
    | none =>
      let rest ← sliceFrom html i
      return .done { m with out := m.out ++ rest }
    | some (start, stop, tag) =>
      let before ← slice html i start
      let found ← tagAttr tag "src"
      let src := (found.map (·.1)).getD []
      if ← earnsMarker chrome start src tag then
        return .again ({ out := m.out ++ before ++ imageMarker, marks := m.marks ++ [src] }, stop)
      else
        return .again ({ m with out := m.out ++ before }, stop)) (({} : Marked), 0)

def placeholderRemoteImages (html : Str) : Scan Str := do
  let m ← markRemoteImages html
  return m.out

/-! ### The sanitised body -/

/-- The crates the pipeline calls: `html2text::from_read` at 80 columns, and the `clean` of
the ammonia builder of Links mode (`true`) or of Rich mode. -/
structure Renderers where
  html2text : Str → Option Str
  clean : Bool → Str → Str

/-- Links mode shows where the images are. -/
def placeholdersFor (mode : RenderMode) (pre : Str) : Scan Str :=
  if mode = .links then placeholderRemoteImages pre else pure pre

def sanitizeForMatrix (lib : Renderers) (html : Str) (mode : RenderMode) : Scan Str := do
  let pre ← stripReplyBlockquotes html
  let pre ← placeholdersFor mode pre
  let pre ← separateTableBlocks pre mode
  let cleaned := stripInvisibles (lib.clean (mode == .links) pre)
  let cleaned ← unwrapLiParagraphs cleaned
  let cleaned ← pruneBrOnlyLinks cleaned
  let cleaned ← pruneEmptyElements cleaned
  let cleaned ← collapseBlankRuns cleaned
  let cleaned ← stripBlockAdjacentBreaks cleaned
  collapseBreaks cleaned

/-- The `<img>`s of `html` with the sources `urlToMxc` knows replaced. -/
def rewriteImages (html : Str) (urlToMxc : Str → Option Str) : Scan Str :=
  loop (fun (out, i) => do
    match ← nextImg html i with
    | none =>
      let rest ← sliceFrom html i
      return .done (out ++ rest)
    | some (start, stop, tag) =>
      let before ← slice html i start
      let found ← tagAttr tag "src"
      match found.bind fun r => (urlToMxc r.1).map fun mxc => (r.2, mxc) with
      | some ((a, b), mxc) =>
        let head ← sliceTo tag a
        let tail ← sliceFrom tag b
        return .again (out ++ before ++ head ++ mxc ++ tail, stop)
      | none => return .again (out ++ before ++ tag, stop)) ([], 0)

def renderInlineImages (lib : Renderers) (html : Str) (urlToMxc : Str → Option Str) : Scan Str := do
  let out ← rewriteImages html urlToMxc
  sanitizeForMatrix lib out .rich

/-! ### Plain text -/

/-- One line of `normalize_plain`, after `blankRun` blank ones. -/
def normalizeLine (st : Str × UInt32) (line : Str) : Str × UInt32 :=
  let line := trimEnd line
  if line.isEmpty then (if st.2 + 1 ≤ 1 then st.1 ++ ['\n'] else st.1, st.2 + 1)
  else (st.1 ++ line ++ ['\n'], 0)

def normalizePlain (s : Str) : Str :=
  Str.trim ((lines (stripInvisibles s)).foldl normalizeLine ([], 0)).1

def isAttribution (line : Str) : Bool :=
  let t := Str.trim line
  (startsWith "On ".toList t && endsWith "wrote:".toList t) ||
    Str.eqIgnoreAsciiCase t "-----original message-----".toList

def stripQuotedReply (s : Str) : Str :=
  trimEnd (['\n'].intercalate ((lines s).takeWhile fun line => !isAttribution line))

/-- The last space or newline, where that is close to the cut. -/
def backUp (s : Str) (stop : Nat) : Scan Nat := do
  let kept ← sliceTo s stop
  return match rfind (fun c => c == ' ' || c == '\n') kept with
    | some ws => if usizeSub stop ws < 200 then ws else stop
    | none => stop

def clampUtf8 (s : Str) (maxBytes : Nat) : Scan Str := do
  if byteLen s ≤ maxBytes then
    return s
  else
    let stop ← loop (fun stop =>
      return if 0 < stop && !isCharBoundary s stop then .again (usizeSub stop 1) else .done stop)
      maxBytes
    let stop ← backUp s stop
    let kept ← sliceTo s stop
    return trimEnd kept

def matrixBodyBudget : Nat := 57000

def matrixTruncationNotice : Str :=
  "\n\n[Message truncated — too large for Matrix; view the full email in your mail client.]".toList

def clampToMatrixLimit (plain : Str) (html : Option Str) : Scan (Str × Option Str) := do
  let html := html.filter fun h => byteLen h ≤ matrixBodyBudget
  let allowance := usizeSub matrixBodyBudget ((html.map byteLen).getD 0)
  if byteLen plain ≤ allowance then
    return (plain, html)
  else
    let keep := allowance - byteLen matrixTruncationNotice
    let out ← clampUtf8 plain keep
    return (out ++ matrixTruncationNotice, html)

/-! ### The body of an email -/

structure BodyPart where
  partId : Option Str
  contentType : Option Str
deriving DecidableEq, Repr

structure BodyValue where
  value : Str
  isTruncated : Bool
deriving DecidableEq, Repr

/-- What `EmailBody::from_email` reads of an email. -/
structure Email where
  subject : Option Str := none
  textBody : Option (List BodyPart) := none
  htmlBody : Option (List BodyPart) := none
  bodyValues : List (Str × BodyValue) := []
deriving DecidableEq, Repr

def Email.bodyValue (email : Email) (partId : Str) : Option BodyValue :=
  email.bodyValues.lookup partId

def extractBody (email : Email) (parts : List BodyPart) : Option (Str × Bool × Option Str) := do
  let part ← parts.head?
  let partId ← part.partId
  let v ← email.bodyValue partId
  return (v.value, v.isTruncated, part.contentType)

def isHtml (text : Str) (contentType : Option Str) : Scan Bool :=
  if contentType = some "text/html".toList then pure true else looksLikeHtml text

def plainCandidate (email : Email) : Scan (Option (Str × Bool)) := do
  match email.textBody.bind (extractBody email) with
  | none => return none
  | some (text, truncated, contentType) =>
    return if ← isHtml text contentType then none else some (text, truncated)

/-- A part that is HTML. -/
def htmlPart (email : Email) (parts : Option (List BodyPart)) : Scan (Option (Str × Bool)) := do
  match parts.bind (extractBody email) with
  | none => return none
  | some (text, truncated, contentType) =>
    return if ← isHtml text contentType then some (text, truncated) else none

def htmlCandidate (email : Email) : Scan (Option (Str × Bool)) := do
  match ← htmlPart email email.htmlBody with
  | some found => return some found
  | none => htmlPart email email.textBody

def originalHtml (email : Email) : Scan (Option Str) := do
  let found ← htmlCandidate email
  return found.map (·.1)

def noSubject : Str := "(No Subject)".toList

def truncatedPlain : Str := "\n\n[Email truncated by server due to size limit]".toList

def truncatedHtml : Str :=
  "<br><br><strong>[Email truncated by server due to size limit]</strong>".toList

structure Body where
  plain : Str
  html : Option Str
deriving DecidableEq, Repr

/-- The text of the timeline before it is tidied, and whether it was cut off. -/
def rawText (lib : Renderers) (email : Email) (plainPart htmlPart : Option (Str × Bool)) :
    Str × Bool :=
  match plainPart, htmlPart with
  | some part, _ => part
  | none, some (html, truncated) => ((lib.html2text html).getD html, truncated)
  | none, none => (email.subject.getD noSubject, false)

def formattedBody (lib : Renderers) (mode : RenderMode) (htmlPart : Option (Str × Bool)) :
    Scan (Option Str) :=
  match mode, htmlPart with
  | .plain, _ => pure none
  | _, none => pure none
  | mode, some (html, truncated) => do
    let out ← sanitizeForMatrix lib (if truncated then html ++ truncatedHtml else html) mode
    return some out

def fromEmail (lib : Renderers) (email : Email) (mode : RenderMode) : Scan Body := do
  let plainPart ← plainCandidate email
  let htmlPart ← htmlCandidate email
  let (raw, truncated) := rawText lib email plainPart htmlPart
  let body := stripQuotedReply raw
  let plain := normalizePlain (if truncated then body ++ truncatedPlain else body)
  let html ← formattedBody lib mode htmlPart
  let (plain, html) ← clampToMatrixLimit plain html
  return { plain, html }

end JmapBridge.Content
