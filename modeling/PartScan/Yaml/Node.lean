import PartScan.Yaml.Scalar
import PartScan.Yaml.Token

/-! # Nodes of a document

The tokens of a document make a tree of scalars, lists and maps. An anchored node can be named again
by an alias behind its start.
-/

namespace PartScan.Yaml

/-- A node of a document. The tag of a scalar or a collection tells its sort. -/
inductive Node where
  | alias (name : List Char)
  | scalar (anchor : Option (List Char)) (tag : Tag) (text : List Char)
  | list (anchor : Option (List Char)) (tag : Tag) (items : List Node)
  | map (anchor : Option (List Char)) (tag : Tag) (entries : List (Node × Node))
  deriving Repr, Inhabited

/-- What a text without content stands for. -/
def Node.blank : Node := .scalar none .null []

/-- The tokens that are left, and the anchors so far. -/
structure Feed where
  tokens : List Token
  anchors : List (List Char) := []

/-- What the document's directives set and what ends its tokens. -/
structure Frame where
  handles : List (List Char × List Char)
  stop : Option Fault

/-- The anchor and the tag in front of a node, each at most once. -/
structure Properties where
  anchor : Option (List Char) := none
  tag : Option (Option (List Char) × List Char) := none

def properties : List Token → Properties × List Token
  | .anchor a :: .tag h s :: rest => ({ anchor := some a, tag := some (h, s) }, rest)
  | .anchor a :: rest => ({ anchor := some a }, rest)
  | .tag h s :: .anchor a :: rest => ({ anchor := some a, tag := some (h, s) }, rest)
  | .tag h s :: rest => ({ tag := some (h, s) }, rest)
  | rest => ({}, rest)

namespace Frame

/-- The fault at a token that cannot stand where it stands. -/
def fault (f : Frame) : List Token → Fault
  | [] => f.stop.getD .malformed
  | _ => .malformed

def tagName (f : Frame) : Option (List Char) × List Char → Except Fault (List Char)
  | (none, suffix) => .ok suffix
  | (some handle, suffix) =>
    match f.handles.find? fun h => h.1 = handle with
    | some h => .ok (h.2 ++ suffix)
    | none => .error .malformed

/-- Register an anchor; each name is given once. -/
def register (anchor : Option (List Char)) (s : Feed) : Except Fault Feed :=
  match anchor with
  | none => .ok s
  | some a => if a ∈ s.anchors then .error .malformed else .ok { s with anchors := a :: s.anchors }

/-- A tag given by name, unless the name is missing or the mark for "no tag". -/
def given (default : Tag) : Option (List Char) → Tag
  | none => default
  | some name => if name = ['!'] then default else .ofName name

/-- The sort of a scalar: by its tag, by its form if it is plain or marked as having no tag, else
text. -/
def scalarTag (plain : Bool) (text : List Char) (name : Option (List Char)) : Tag :=
  given (if plain ∨ name = some ['!'] then plainTag text else .str) name

/-- Nodes and their parts, read with a bound on the depth of the reading. In a block context
`block` collections may follow; behind a key or a colon a list needs no indentation of its own. -/
def node (f : Frame) (block unindented : Bool) : Nat → Feed → Except Fault (Node × Feed)
  | 0, _ => .error .malformed
  | fuel + 1, s =>
    match s.tokens with
    | .alias name :: rest =>
      if name ∈ s.anchors then .ok (.alias name, { s with tokens := rest })
      else .error .malformed
    | tokens => do
      let (p, rest) := properties tokens
      let name ← match p.tag with
        | some t => (f.tagName t).map some
        | none => .ok none
      let a := p.anchor
      match rest with
      | .blockEntry :: _ =>
        if unindented then do
          let s ← register a { s with tokens := rest }
          let (items, s) ← unindentedItems f fuel s
          .ok (.list a (given .seq name) items, s)
        else if a.isSome ∨ name.isSome then do
          let s ← register a { s with tokens := rest }
          .ok (.scalar a (scalarTag true [] name) [], s)
        else .error .malformed
      | .scalar plain text :: more => do
        let s ← register a { s with tokens := more }
        .ok (.scalar a (scalarTag plain text name) text, s)
      | .listOpen :: more => do
        let s ← register a { s with tokens := more }
        let (items, s) ← flowItems f true fuel s
        .ok (.list a (given .seq name) items, s)
      | .mapOpen :: more => do
        let s ← register a { s with tokens := more }
        let (entries, s) ← flowEntries f true fuel s
        .ok (.map a (given .map name) entries, s)
      | t :: more =>
        if block ∧ t = .blockSequence then do
          let s ← register a { s with tokens := more }
          let (items, s) ← blockItems f fuel s
          .ok (.list a (given .seq name) items, s)
        else if block ∧ t = .blockMapping then do
          let s ← register a { s with tokens := more }
          let (entries, s) ← blockEntries f fuel s
          .ok (.map a (given .map name) entries, s)
        else if a.isSome ∨ name.isSome then do
          let s ← register a { s with tokens := rest }
          .ok (.scalar a (scalarTag true [] name) [], s)
        else .error (f.fault rest)
      | [] => .error (f.fault [])
where
  /-- The entries of an indented list, up to its end. -/
  blockItems (f : Frame) : Nat → Feed → Except Fault (List Node × Feed)
    | 0, _ => .error .malformed
    | fuel + 1, s =>
      match s.tokens with
      | .blockEntry :: rest => do
        let (item, s) ← match rest with
          | .blockEntry :: _ | .blockEnd :: _ => .ok (.blank, { s with tokens := rest })
          | _ => node f true false fuel { s with tokens := rest }
        let (items, s) ← blockItems f fuel s
        .ok (item :: items, s)
      | .blockEnd :: rest => .ok ([], { s with tokens := rest })
      | tokens => .error (f.fault tokens)
  /-- The entries of a list that ends where no further entry follows. -/
  unindentedItems (f : Frame) : Nat → Feed → Except Fault (List Node × Feed)
    | 0, _ => .error .malformed
    | fuel + 1, s =>
      match s.tokens with
      | .blockEntry :: rest => do
        let (item, s) ← match rest with
          | .blockEntry :: _ | .key :: _ | .value :: _ | .blockEnd :: _ =>
            .ok (.blank, { s with tokens := rest })
          | _ => node f true false fuel { s with tokens := rest }
        let (items, s) ← unindentedItems f fuel s
        .ok (item :: items, s)
      | _ => .ok ([], s)
  /-- A key or a value of an indented map; nothing may stand for it. -/
  blockPlace (f : Frame) : Nat → Feed → Except Fault (Node × Feed)
    | 0, _ => .error .malformed
    | fuel + 1, s =>
      match s.tokens with
      | .key :: _ | .value :: _ | .blockEnd :: _ => .ok (.blank, s)
      | _ => node f true true fuel s
  /-- The entries of an indented map, up to its end. -/
  blockEntries (f : Frame) : Nat → Feed → Except Fault (List (Node × Node) × Feed)
    | 0, _ => .error .malformed
    | fuel + 1, s =>
      match s.tokens with
      | .key :: rest => do
        let (key, s) ← blockPlace f fuel { s with tokens := rest }
        let (value, s) ← match s.tokens with
          | .value :: rest => blockPlace f fuel { s with tokens := rest }
          | _ => .ok (.blank, s)
        let (entries, s) ← blockEntries f fuel s
        .ok ((key, value) :: entries, s)
      | .blockEnd :: rest => .ok ([], { s with tokens := rest })
      | tokens => .error (f.fault tokens)
  /-- A key or a value between brackets; nothing may stand for it in front of a mark. -/
  flowPlace (f : Frame) (stops : List Token) : Nat → Feed → Except Fault (Node × Feed)
    | 0, _ => .error .malformed
    | fuel + 1, s =>
      match s.tokens with
      | t :: _ => if t ∈ stops then .ok (.blank, s) else node f false false fuel s
      | [] => .error (f.fault [])
  /-- The items of a list between brackets, up to its end. A key makes a map of one entry. -/
  flowItems (f : Frame) (first : Bool) : Nat → Feed → Except Fault (List Node × Feed)
    | 0, _ => .error .malformed
    | fuel + 1, s =>
      match s.tokens, first with
      | .listClose :: rest, _ => .ok ([], { s with tokens := rest })
      | .flowEntry :: rest, false => flowItem f fuel { s with tokens := rest }
      | tokens, false => .error (f.fault tokens)
      | _, true => flowItem f fuel s
  flowItem (f : Frame) : Nat → Feed → Except Fault (List Node × Feed)
    | 0, _ => .error .malformed
    | fuel + 1, s =>
      match s.tokens with
      | .listClose :: rest => .ok ([], { s with tokens := rest })
      | .key :: rest => do
        let (key, s) ←
          flowPlace f [.value, .flowEntry, .listClose] fuel { s with tokens := rest }
        let (value, s) ← match s.tokens with
          | .value :: rest => flowPlace f [.flowEntry, .listClose] fuel { s with tokens := rest }
          | _ => .ok (.blank, s)
        let (items, s) ← flowItems f false fuel s
        .ok (.map none .map [(key, value)] :: items, s)
      | _ => do
        let (item, s) ← node f false false fuel s
        let (items, s) ← flowItems f false fuel s
        .ok (item :: items, s)
  /-- The entries of a map between braces, up to its end. -/
  flowEntries (f : Frame) (first : Bool) :
      Nat → Feed → Except Fault (List (Node × Node) × Feed)
    | 0, _ => .error .malformed
    | fuel + 1, s =>
      match s.tokens, first with
      | .mapClose :: rest, _ => .ok ([], { s with tokens := rest })
      | .flowEntry :: rest, false => flowPair f fuel { s with tokens := rest }
      | tokens, false => .error (f.fault tokens)
      | _, true => flowPair f fuel s
  flowPair (f : Frame) : Nat → Feed → Except Fault (List (Node × Node) × Feed)
    | 0, _ => .error .malformed
    | fuel + 1, s =>
      match s.tokens with
      | .mapClose :: rest => .ok ([], { s with tokens := rest })
      | .key :: rest => do
        let (key, s) ←
          flowPlace f [.value, .flowEntry, .mapClose] fuel { s with tokens := rest }
        let (value, s) ← match s.tokens with
          | .value :: rest => flowPlace f [.flowEntry, .mapClose] fuel { s with tokens := rest }
          | _ => .ok (.blank, s)
        let (entries, s) ← flowEntries f false fuel s
        .ok ((key, value) :: entries, s)
      | _ => do
        let (key, s) ← node f false false fuel s
        let (entries, s) ← flowEntries f false fuel s
        .ok ((key, .blank) :: entries, s)

end Frame

/-! ## Documents -/

/-- The handles that every document has, unless it sets them otherwise. -/
def defaultHandles : List (List Char × List Char) :=
  [(['!'], ['!']), (['!', '!'], tagLead)]

/-- The directives in front of a document: the tag handles that they set. One version may be given,
which is a first one, and each handle is set once. -/
def directives (versioned : Bool) (handles : List (List Char × List Char)) :
    List Token → Except Fault (List (List Char × List Char) × List Token)
  | .version major :: rest =>
    if versioned ∨ major ≠ 1 then .error .malformed else directives true handles rest
  | .tagHandle handle lead :: rest =>
    if handles.any fun h => h.1 = handle then .error .malformed
    else directives versioned (handles ++ [(handle, lead)]) rest
  | .directive :: rest => directives versioned handles rest
  | rest => .ok (handles ++ defaultHandles, rest)

/-- What follows a document: marks of its end and the end of the stream. -/
def checkEnd (stop : Option Fault) : List Token → Except Fault Unit
  | .documentEnd :: rest => checkEnd stop rest
  | [.streamEnd] => .ok ()
  | [] => .error (stop.getD .malformed)
  | _ => .error .malformed

/-- The root of the one document of a stream, or nothing for a stream without documents. -/
def parse (text : List Char) : Except Fault (Option Node) := do
  let (tokens, stop) := tokens text
  let fuel := 4 * (tokens.length + 2)
  match tokens with
  | [] => .error (stop.getD .malformed)
  | .streamEnd :: _ => .ok none
  | t :: _ =>
    let explicit := match t with
      | .version _ | .tagHandle .. | .directive | .documentStart => true
      | _ => false
    if explicit then do
      let (handles, rest) ← directives false [] tokens
      let f : Frame := { handles, stop }
      match rest with
      | .documentStart :: rest =>
        let (root, s) ← match rest with
          | .version _ :: _ | .tagHandle .. :: _ | .directive :: _ | .documentStart :: _
          | .documentEnd :: _ | .streamEnd :: _ =>
            .ok (Node.blank, { tokens := rest : Feed })
          | _ => f.node true false fuel { tokens := rest }
        checkEnd stop s.tokens
        .ok (some root)
      | rest => .error (f.fault rest)
    else do
      let f : Frame := { handles := defaultHandles, stop }
      let (root, s) ← f.node true false fuel { tokens }
      checkEnd stop s.tokens
      .ok (some root)

end PartScan.Yaml
