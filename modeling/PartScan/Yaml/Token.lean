import PartScan.Yaml.Cursor
import PartScan.Yaml.Fault

/-! # Tokens of a document

A document is cut into scalars, names, and marks of its structure. The indentation of lines opens
and closes block collections; a key that is not marked as one is found by the colon behind it, and
its mark is then put in front of it.
-/

namespace PartScan.Yaml

open Number

inductive Token where
  | version (major : Nat)
  | tagHandle (handle lead : List Char)
  | directive
  | documentStart
  | documentEnd
  | streamEnd
  | blockSequence
  | blockMapping
  | blockEnd
  | listOpen
  | listClose
  | mapOpen
  | mapClose
  | blockEntry
  | flowEntry
  | key
  | value
  | alias (name : List Char)
  | anchor (name : List Char)
  | tag (handle : Option (List Char)) (suffix : List Char)
  | scalar (plain : Bool) (text : List Char)
  deriving DecidableEq, Repr

/-- A token that may turn out to be a key: its flow level, its number, and where it starts. -/
structure OpenKey where
  level : Nat
  number : Nat
  required : Bool
  index : Nat
  line : Nat
  column : Nat
  deriving Repr

/-- The tokens so far and the state of their reader. -/
structure Reader where
  cursor : Cursor
  tokens : List Token := []
  level : Nat := 0
  indent : Int := -1
  indents : List Int := []
  keyAllowed : Bool := true
  keys : List OpenKey := []

/-- The characters that a plain scalar cannot start with. -/
def indicators : List Char := "-?:,[]\x7b\x7d#&*!|>'\"%@\x60".toList

/-! ## Scalars -/

/-- Line breaks that follow one, with the blanks before them; a document marker is refused. -/
def quotedBreaks : Nat → Cursor → Except Fault (List Char × Cursor)
  | 0, c => .ok ([], c)
  | fuel + 1, c =>
    if c.seesSeparator then .error .malformed
    else
      let c := c.skipWhile isSpace
      if c.sees 0 isBreak then
        let (b, c) := c.lineBreak
        (quotedBreaks fuel c).map fun (bs, c) => (b ++ bs, c)
      else .ok ([], c)

/-- A line break is read as a space, and each further one as itself. -/
def folded (first : List Char) (more : List Char) : List Char :=
  if first ≠ ['\n'] then first ++ more
  else if more = [] then [' '] else more

def escape? : Char → Option Char
  | '0' => some '\x00'
  | 'a' => some '\x07'
  | 'b' => some '\x08'
  | 't' => some '\t'
  | '\t' => some '\t'
  | 'n' => some '\n'
  | 'v' => some '\x0b'
  | 'f' => some '\x0c'
  | 'r' => some '\r'
  | 'e' => some '\x1b'
  | ' ' => some ' '
  | '"' => some '"'
  | '\\' => some '\\'
  | '/' => some '/'
  | 'N' => some '\x85'
  | '_' => some '\u00a0'
  | 'L' => some '\u2028'
  | 'P' => some '\u2029'
  | _ => none

/-- How many hexadecimal digits follow the letter of an escape. -/
def escapeWidth? : Char → Option Nat
  | 'x' => some 2
  | 'u' => some 4
  | 'U' => some 8
  | _ => none

/-- The text of an escape; the cursor stands behind its backslash. -/
def readEscape (c : Cursor) : Except Fault (List Char × Cursor) :=
  match c.peek 0 with
  | none => .error .malformed
  | some e =>
    match escape? e, escapeWidth? e with
    | some ch, _ => .ok ([ch], c.next)
    | none, some width =>
      let digits := (c.rest.drop 1).take width
      if digits.length = width ∧ digits.all isHexDigit then
        let n := natOfDigitsBase 16 digits
        if 0x80000000 ≤ n then .error .codeSize
        else if 0x110000 ≤ n then .error .codePoint
        else .ok ([if 0xd800 ≤ n ∧ n < 0xe000 then '\ufffd' else Char.ofNat n], c.skip (width + 1))
      else .error .malformed
    | none, none =>
      if isBreak e then
        let (_, c) := c.lineBreak
        quotedBreaks c.rest.length c
      else .error .malformed

def quotedText (double : Bool) : Nat → Cursor → Except Fault (List Char × Cursor)
  | 0, _ => .error .malformed
  | fuel + 1, c =>
    match c.peek 0 with
    | none => .error .malformed
    | some ch =>
      if ch = (if double then '"' else '\'') then
        if !double && c.peek 1 = some '\'' then
          (quotedText double fuel (c.skip 2)).map fun (t, c) => ('\'' :: t, c)
        else .ok ([], c.next)
      else if double && ch = '\\' then do
        let (t, c) ← readEscape c.next
        let (u, c) ← quotedText double fuel c
        .ok (t ++ u, c)
      else if isSpace ch || isBreak ch then
        let blanks := c.taken isSpace
        let c := c.skipWhile isSpace
        if c.sees 0 isBreak then do
          let (b, c) := c.lineBreak
          let (bs, c) ← quotedBreaks c.rest.length c
          let (u, c) ← quotedText double fuel c
          .ok (folded b bs ++ u, c)
        else (quotedText double fuel c).map fun (t, c) => (blanks ++ t, c)
      else (quotedText double fuel c.next).map fun (t, c) => (ch :: t, c)

/-- The characters that separate and enclose the parts of a flow collection. -/
def isFlowMark (c : Char) : Bool := ",[]\x7b\x7d".toList.contains c

/-- The characters of a plain scalar up to the next blank. -/
def plainWord (flow : Bool) : List Char → List Char
  | [] => []
  | ch :: rest =>
    if isSpace ch || isBreak ch then []
    else if ch = ':' && (isGap rest.head? || (flow && rest.head?.any isFlowMark)) then []
    else if flow && (ch = '?' || isFlowMark ch) then []
    else ch :: plainWord flow rest

/-- Breaks and spaces behind a line break in a plain scalar; `none` stands for a document marker. -/
def plainBreaks : Nat → Cursor → Option (List Char) × Cursor
  | 0, c => (some [], c)
  | fuel + 1, c =>
    if c.seesSeparator then (none, c)
    else
      let c := c.skipSpaces
      if c.sees 0 isBreak then
        let (b, c) := c.lineBreak
        let (bs, c) := plainBreaks fuel c
        (bs.map (b ++ ·), c)
      else (some [], c)

/-- The blanks inside a plain scalar, as they are read, and whether they hold a line break. Nothing
is read where the scalar ends. -/
def plainGap (c : Cursor) : List Char × Bool × Cursor :=
  let blanks := c.taken (· = ' ')
  let c := c.skipSpaces
  if c.sees 0 isBreak then
    let (b, c) := c.lineBreak
    match plainBreaks c.rest.length c with
    | (none, c) => ([], true, c)
    | (some bs, c) => (folded b bs, true, c)
  else (blanks, false, c)

/-- A plain scalar, and whether a key may follow it. -/
def plainText (flow : Bool) (indent : Int) : Nat → Cursor → List Char × Bool × Cursor
  | 0, c => ([], false, c)
  | fuel + 1, c =>
    let word := if c.peek 0 = some '#' then [] else plainWord flow c.rest
    if word = [] then ([], false, c)
    else
      let (gap, broken, d) := plainGap (c.skip word.length)
      if gap = [] ∨ d.peek 0 = some '#' ∨ (!flow ∧ (d.column : Int) < indent) then
        (word, broken, d)
      else
        let (more, allowed, e) := plainText flow indent fuel d
        if more = [] then (word, broken, e) else (word ++ gap ++ more, allowed, e)

/-- Whether the last line break of a block scalar is dropped, kept, or kept with all that follow. -/
inductive Chomping where
  | strip
  | clip
  | keep
  deriving DecidableEq, Repr

def chomping? (c : Cursor) : Option Chomping :=
  match c.peek 0 with
  | some '+' => some .keep
  | some '-' => some .strip
  | _ => none

def increment? (c : Cursor) : Option Nat :=
  match c.peek 0 with
  | some d => if d.isDigit then some (d.toNat - '0'.toNat) else none
  | none => none

/-- The header of a block scalar: chomping and indentation, in either order. -/
def blockHeader (c : Cursor) : Except Fault ((Chomping × Option Nat) × Cursor) := do
  let (chomp, inc, c) :=
    match chomping? c with
    | some h =>
      let c := c.next
      match increment? c with
      | some n => (h, some n, c.next)
      | none => (h, none, c)
    | none =>
      match increment? c with
      | some n =>
        let c := c.next
        match chomping? c with
        | some h => (h, some n, c.next)
        | none => (.clip, some n, c)
      | none => (.clip, none, c)
  if inc = some 0 ∨ !endsWord (c.peek 0) then .error .malformed
  else
    let c := c.skipSpaces
    let c := if c.peek 0 = some '#' then c.skipLine else c
    if endsLine (c.peek 0) then .ok ((chomp, inc), c.lineBreak.2) else .error .malformed

/-- The breaks before the first line of a block scalar, and the widest indentation among them. -/
def blockIndentation : Nat → Cursor → List Char × Nat × Cursor
  | 0, c => ([], 0, c)
  | fuel + 1, c =>
    if c.peek 0 = some ' ' then
      let c := c.next
      let (bs, widest, d) := blockIndentation fuel c
      (bs, max c.column widest, d)
    else if c.sees 0 isBreak then
      let (b, c) := c.lineBreak
      let (bs, widest, d) := blockIndentation fuel c
      (b ++ bs, widest, d)
    else ([], 0, c)

def skipIndent (indent : Nat) (c : Cursor) : Cursor :=
  c.skip (min (indent - c.column) (c.taken (· = ' ')).length)

/-- The breaks of empty lines in a block scalar. -/
def blockBreaks (indent : Nat) : Nat → Cursor → List Char × Cursor
  | 0, c => ([], skipIndent indent c)
  | fuel + 1, c =>
    let c := skipIndent indent c
    if c.sees 0 isBreak then
      let (b, c) := c.lineBreak
      let (bs, c) := blockBreaks indent fuel c
      (b ++ bs, c)
    else ([], c)

/-- The lines of a block scalar that start at its indentation, behind the empty lines `before`. -/
def blockLines (fold : Bool) (indent : Nat) (chomp : Chomping) :
    Nat → List Char → Cursor → List Char × Cursor
  | 0, _, c => ([], c)
  | fuel + 1, before, c =>
    let spaced := c.sees 0 isSpace
    let line := c.taken fun ch => !isBreak ch
    let (b, c) := (c.skip line.length).lineBreak
    let (bs, c) := blockBreaks indent c.rest.length c
    if c.column = indent ∧ (c.peek 0).isSome then
      let joint :=
        if fold ∧ b = ['\n'] ∧ !spaced ∧ !c.sees 0 isSpace then (if bs = [] then [' '] else [])
        else b
      let (more, c) := blockLines fold indent chomp fuel bs c
      (before ++ line ++ joint ++ more, c)
    else
      let last := if chomp = .strip then [] else b
      (before ++ line ++ last ++ (if chomp = .keep then bs else []), c)

/-- A block scalar; the cursor stands behind its mark. -/
def blockText (fold : Bool) (outer : Int) (c : Cursor) : Except Fault (List Char × Cursor) := do
  let ((chomp, inc), c) ← blockHeader c
  let least := (max (outer + 1) 1).toNat
  let (breaks, indent, c) :=
    match inc with
    | none =>
      let (bs, widest, c) := blockIndentation c.rest.length c
      (bs, max least widest, c)
    | some n =>
      let indent := least + n - 1
      let (bs, c) := blockBreaks indent c.rest.length c
      (bs, indent, c)
  if c.column = indent ∧ (c.peek 0).isSome then
    .ok (blockLines fold indent chomp c.rest.length breaks c)
  else .ok (if chomp = .keep then breaks else [], c)

/-! ## Names, tags and directives -/

/-- The name of an anchor or an alias; the cursor stands behind its mark. -/
def readName (c : Cursor) : Except Fault (List Char × Cursor) :=
  let name := c.taken isNameChar
  let c := c.skip name.length
  if name = [] then .error .malformed
  else if isGap (c.peek 0) || c.sees 0 ("?:,]\x7d%@\x60".toList.contains ·) then .ok (name, c)
  else .error .malformed

def isTagChar (c : Char) : Bool := isNameChar c || ";/?:@&=+$,.!~*'()[]%".toList.contains c

/-- The bytes of escapes such as `%C3%A9`. -/
def escapedBytes : List Char → Option (List UInt8)
  | '%' :: a :: b :: rest =>
    if isHexDigit a && isHexDigit b then
      (escapedBytes rest).map ((natOfDigitsBase 16 [a, b]).toUInt8 :: ·)
    else none
  | [] => some []
  | _ => none

def escapeRun : List Char → List Char
  | '%' :: a :: b :: rest => '%' :: a :: b :: escapeRun rest
  | '%' :: rest => '%' :: rest
  | _ => []

/-- A tag with its escapes replaced by the characters that they encode. -/
def decodeTag : Nat → List Char → Option (List Char)
  | 0, _ => some []
  | _, [] => some []
  | fuel + 1, '%' :: rest => do
    let run := escapeRun ('%' :: rest)
    let bytes ← escapedBytes run
    let text ← String.fromUTF8? (ByteArray.mk bytes.toArray)
    let more ← decodeTag fuel (('%' :: rest).drop run.length)
    some (text.toList ++ more)
  | fuel + 1, c :: rest => (decodeTag fuel rest).map (c :: ·)

def readTagText (c : Cursor) : Except Fault (List Char × Cursor) :=
  let raw := c.taken isTagChar
  match decodeTag raw.length raw with
  | some (t :: text) => .ok (t :: text, c.skip raw.length)
  | _ => .error .malformed

def readHandle (c : Cursor) : Except Fault (List Char × Cursor) :=
  if c.peek 0 ≠ some '!' then .error .malformed
  else if c.peek 1 = some ' ' then .ok (['!'], c.next)
  else
    let name := c.next.taken isNameChar
    if c.peek (name.length + 1) = some '!' then
      .ok ('!' :: name ++ ['!'], c.skip (name.length + 2))
    else .error .malformed

/-- A tag; the cursor stands on its exclamation mark. -/
def readTag (c : Cursor) : Except Fault ((Option (List Char) × List Char) × Cursor) := do
  let (tag, c) ←
    if c.peek 1 = some '<' then do
      let (text, c) ← readTagText (c.skip 2)
      if c.peek 0 = some '>' then pure ((none, text), c.next) else .error .malformed
    else if isGap (c.peek 1) then pure ((none, ['!']), c.next)
    else do
      let word := c.next.taken fun ch => !(ch = ' ' || isBreak ch)
      let (handle, c) ← if '!' ∈ word then readHandle c else pure (['!'], c.next)
      let (text, c) ← readTagText c
      pure ((some handle, text), c)
  if endsWord (c.peek 0) then .ok (tag, c) else .error .malformed

def readDigits (c : Cursor) : Except Fault (Nat × Cursor) :=
  let ds := c.taken Char.isDigit
  if ds = [] then .error .malformed else .ok (natOfDigits ds, c.skip ds.length)

/-- A directive line; the cursor stands on its percent sign. -/
def readDirective (c : Cursor) : Except Fault (Token × Cursor) := do
  let c := c.next
  let name := c.taken isNameChar
  let c := c.skip name.length
  if name = [] ∨ !endsWord (c.peek 0) then .error .malformed
  else
    let (t, c) ←
      if name = "YAML".toList then do
        let (major, c) ← readDigits c.skipSpaces
        if c.peek 0 ≠ some '.' then .error .malformed
        else
          let (_, c) ← readDigits c.next
          if endsWord (c.peek 0) then pure (Token.version major, c) else .error .malformed
      else if name = "TAG".toList then do
        let (handle, c) ← readHandle c.skipSpaces
        if c.peek 0 ≠ some ' ' then .error .malformed
        else
          let (lead, c) ← readTagText c.skipSpaces
          if endsWord (c.peek 0) then pure (Token.tagHandle handle lead, c) else .error .malformed
      else pure (Token.directive, c.skipLine)
    let c := c.skipSpaces
    let c := if c.peek 0 = some '#' then c.skipLine else c
    if endsLine (c.peek 0) then .ok (t, c.lineBreak.2) else .error .malformed

/-! ## Structure -/

namespace Reader

def put (r : Reader) (t : Token) : Reader := { r with tokens := r.tokens ++ [t] }

/-- Put a token in front of the one with the given number. -/
def insert (r : Reader) (number : Nat) (t : Token) : Reader :=
  { r with tokens := r.tokens.take number ++ t :: r.tokens.drop number }

def move (r : Reader) (c : Cursor) : Reader := { r with cursor := c }

/-- Close the block collections that are indented further than a column. -/
def unwind (column : Int) : List Int → Reader → Reader
  | [], r => r
  | outer :: rest, r =>
    if r.level = 0 ∧ column < r.indent then
      unwind column rest { r.put .blockEnd with indent := outer, indents := rest }
    else r

/-- Open a block collection if a column is indented further than the present one. -/
def addIndent (r : Reader) (column : Nat) : Reader × Bool :=
  if r.indent < column then
    ({ r with indents := r.indent :: r.indents, indent := column }, true)
  else (r, false)

/-- Drop the open key of the present level; a key that has to be one is missed. -/
def dropKey (r : Reader) : Except Fault Reader :=
  if r.keys.any fun k => k.level = r.level ∧ k.required then .error .malformed
  else .ok { r with keys := r.keys.filter fun k => k.level ≠ r.level }

/-- Drop open keys that a line break or more than 1024 characters follow. -/
def dropStale (r : Reader) : Except Fault Reader :=
  let stale := fun (k : OpenKey) =>
    k.line ≠ r.cursor.line ∨ k.index + 1024 < r.cursor.index
  if r.keys.any fun k => stale k ∧ k.required then .error .malformed
  else .ok { r with keys := r.keys.filter fun k => ¬stale k }

def noteKey (r : Reader) : Except Fault Reader :=
  if r.keyAllowed then do
    let required := r.level = 0 ∧ r.indent = (r.cursor.column : Int)
    let r ← r.dropKey
    let c := r.cursor
    .ok { r with
      keys := r.keys ++ [⟨r.level, r.tokens.length, required, c.index, c.line, c.column⟩] }
  else .ok r

/-- Spaces, comments and line breaks before a token. -/
def skipToToken : Nat → Reader → Reader
  | 0, r => r
  | fuel + 1, r =>
    let c := r.cursor.skipSpaces
    let c := if c.peek 0 = some '#' then c.skipLine else c
    if c.sees 0 isBreak then
      let r := r.move c.lineBreak.2
      skipToToken fuel (if r.level = 0 then { r with keyAllowed := true } else r)
    else r.move c

def document (r : Reader) (t : Token) : Except Fault Reader := do
  let r ← (unwind (-1) r.indents r).dropKey
  .ok (({ r with keyAllowed := false }.put t).move (r.cursor.skip 3))

def openFlow (r : Reader) (t : Token) : Except Fault Reader := do
  let r ← r.noteKey
  .ok (({ r with level := r.level + 1, keyAllowed := true }.put t).move r.cursor.next)

def closeFlow (r : Reader) (t : Token) : Except Fault Reader := do
  let r ← r.dropKey
  .ok (({ r with level := r.level - 1, keyAllowed := false }.put t).move r.cursor.next)

/-- Open a block collection at the present column where its first mark stands there. -/
def openBlock (r : Reader) (t : Token) : Except Fault Reader :=
  if r.level ≠ 0 then .ok r
  else if !r.keyAllowed then .error .malformed
  else
    let (r, added) := r.addIndent r.cursor.column
    .ok (if added then r.put t else r)

def blockEntry (r : Reader) : Except Fault Reader := do
  let r ← r.openBlock .blockSequence
  let r ← { r with keyAllowed := true }.dropKey
  .ok ((r.put .blockEntry).move r.cursor.next)

def flowEntry (r : Reader) : Except Fault Reader := do
  let r ← { r with keyAllowed := true }.dropKey
  .ok ((r.put .flowEntry).move r.cursor.next)

def key (r : Reader) : Except Fault Reader := do
  let r ← r.openBlock .blockMapping
  let r ← { r with keyAllowed := r.level = 0 }.dropKey
  .ok ((r.put .key).move r.cursor.next)

/-- A colon makes the open key of its level a key; without one it follows a marked key. -/
def value (r : Reader) : Except Fault Reader := do
  let r ←
    match r.keys.find? fun k => k.level = r.level with
    | some k =>
      let r := { r with keys := r.keys.filter fun k => k.level ≠ r.level }.insert k.number .key
      let (r, added) := if r.level = 0 then r.addIndent k.column else (r, false)
      pure { (if added then r.insert k.number .blockMapping else r) with keyAllowed := false }
    | none => do
      let r ← r.openBlock .blockMapping
      { r with keyAllowed := r.level = 0 }.dropKey
  .ok ((r.put .value).move r.cursor.next)

def keyToken {α : Type} (r : Reader) (read : Cursor → Except Fault (α × Cursor))
    (token : α → Token) : Except Fault Reader := do
  let r ← r.noteKey
  let (a, c) ← read r.cursor
  .ok (({ r with keyAllowed := false }.put (token a)).move c)

def quoted (r : Reader) (double : Bool) : Except Fault Reader :=
  r.keyToken (fun c => quotedText double c.rest.length c.next) (.scalar false)

def block (r : Reader) (fold : Bool) : Except Fault Reader := do
  let r ← { r with keyAllowed := true }.dropKey
  let (text, c) ← blockText fold r.indent r.cursor.next
  .ok ((r.put (.scalar false text)).move c)

def plain (r : Reader) : Except Fault Reader := do
  let r ← r.noteKey
  let (text, allowed, c) :=
    plainText (r.level ≠ 0) (r.indent + 1) r.cursor.rest.length r.cursor
  .ok (({ r with keyAllowed := allowed }.put (.scalar true text)).move c)

def directive (r : Reader) : Except Fault Reader := do
  let r ← (unwind (-1) r.indents r).dropKey
  let (t, c) ← readDirective r.cursor
  .ok (({ r with keyAllowed := false }.put t).move c)

def startsPlain (r : Reader) (ch : Char) : Bool :=
  !(isSpace ch || isBreak ch || indicators.contains ch) ||
    (!isGap (r.cursor.peek 1) && (ch = '-' || (r.level = 0 && (ch = '?' || ch = ':'))))

/-- Whether a mark stands for itself: always inside brackets, else in front of a gap. -/
def marks (r : Reader) : Bool := r.level ≠ 0 || isGap (r.cursor.peek 1)

def token (r : Reader) (ch : Char) : Except Fault Reader :=
  let c := r.cursor
  if ch = '%' ∧ c.column = 0 then r.directive
  else if c.seesMarker '-' then r.document .documentStart
  else if c.seesMarker '.' then r.document .documentEnd
  else if ch = '[' then r.openFlow .listOpen
  else if ch = '\x7b' then r.openFlow .mapOpen
  else if ch = ']' then r.closeFlow .listClose
  else if ch = '\x7d' then r.closeFlow .mapClose
  else if ch = ',' then r.flowEntry
  else if ch = '-' ∧ isGap (c.peek 1) then r.blockEntry
  else if ch = '?' ∧ r.marks then r.key
  else if ch = ':' ∧ r.marks then r.value
  else if ch = '*' then r.keyToken (fun c => readName c.next) .alias
  else if ch = '&' then r.keyToken (fun c => readName c.next) .anchor
  else if ch = '!' then r.keyToken readTag fun t => .tag t.1 t.2
  else if ch = '|' ∧ r.level = 0 then r.block false
  else if ch = '>' ∧ r.level = 0 then r.block true
  else if ch = '\'' then r.quoted false
  else if ch = '"' then r.quoted true
  else if r.startsPlain ch then r.plain
  else .error .malformed

/-- Read all tokens. They end with the end of the stream, or with the fault that stops them. -/
def readAll : Nat → Reader → List Token × Option Fault
  | 0, r => (r.tokens, some .malformed)
  | fuel + 1, r =>
    let r := skipToToken r.cursor.rest.length r
    match r.dropStale with
    | .error e => (r.tokens, some e)
    | .ok r =>
      let r := unwind r.cursor.column r.indents r
      match r.cursor.peek 0 with
      | none =>
        match (unwind (-1) r.indents r).dropKey with
        | .ok r => ((r.put .streamEnd).tokens, none)
        | .error e => (r.tokens, some e)
      | some ch =>
        match r.token ch with
        | .ok r => readAll fuel r
        | .error e => (r.tokens, some e)

end Reader

/-- The tokens of a document, and the fault that stops them. A byte order mark at the front is
skipped. -/
def tokens (text : List Char) : List Token × Option Fault :=
  if text.all isAllowed then
    let c : Cursor := { rest := text }
    Reader.readAll (text.length + 1)
      { cursor := if c.peek 0 = some '\ufeff' then c.next else c }
  else ([], some .malformed)

end PartScan.Yaml
