import PartScan.Json.Basic

/-! # Reading data values

A text is cut into marks and scalars, and these are gathered into a value by a machine with a stack
of the containers that are still open.
-/

namespace PartScan.Json

open Number

/-- A mark or a scalar of a text. -/
inductive Token where
  | listOpen
  | listClose
  | objectOpen
  | objectClose
  | comma
  | colon
  | scalar (v : Json)
  deriving Repr

/-- The value of four hexadecimal digits at the front. -/
def unit? : List Char → Option (Nat × List Char)
  | a :: b :: c :: d :: rest =>
    if [a, b, c, d].all isHex then some (natOfDigitsBase 16 [a, b, c, d], rest) else none
  | _ => none
where
  isHex (c : Char) : Bool :=
    isAsciiDigit c || ('a' ≤ c && c ≤ 'f') || ('A' ≤ c && c ≤ 'F')

theorem unit?_length {cs rest : List Char} {n : Nat} (h : unit? cs = some (n, rest)) :
    rest.length < cs.length := by
  unfold unit? at h
  split at h
  · split at h
    · simp only [Option.some.injEq, Prod.mk.injEq] at h
      simp only [← h.2, List.length_cons]
      omega
    · simp at h
  · simp at h

def shortEscape? : Char → Option Char
  | '"' => some '"'
  | '\\' => some '\\'
  | '/' => some '/'
  | 'b' => some '\x08'
  | 'f' => some '\x0c'
  | 'n' => some '\n'
  | 'r' => some '\r'
  | 't' => some '\t'
  | _ => none

/-- The character of an escape of one or two units, whose letter `u` has been read. -/
def unicodeEscape? (cs : List Char) : Option (Char × List Char) :=
  match unit? cs with
  | none => none
  | some (n, rest) =>
    if 0xd800 ≤ n ∧ n < 0xdc00 then
      match rest with
      | '\\' :: 'u' :: more =>
        match unit? more with
        | none => none
        | some (m, after) =>
          if 0xdc00 ≤ m ∧ m < 0xe000 then
            some (Char.ofNat (0x10000 + (n - 0xd800) * 0x400 + (m - 0xdc00)), after)
          else none
      | _ => none
    else if 0xdc00 ≤ n ∧ n < 0xe000 then none
    else some (Char.ofNat n, rest)

theorem unicodeEscape?_length {cs rest : List Char} {c : Char}
    (h : unicodeEscape? cs = some (c, rest)) : rest.length < cs.length := by
  unfold unicodeEscape? at h
  split at h
  · simp at h
  · rename_i n r hr
    have := unit?_length hr
    split at h
    · split at h
      · split at h
        · simp at h
        · rename_i m after hm
          have := unit?_length hm
          split at h
          · simp only [Option.some.injEq, Prod.mk.injEq] at h
            simp only [List.length_cons, ← h.2] at *
            omega
          · simp at h
      · simp at h
    · split at h
      · simp at h
      · simp only [Option.some.injEq, Prod.mk.injEq] at h
        rw [← h.2]
        assumption

/-- The text up to the closing quote, and what follows it. -/
def stringBody : List Char → Option (List Char × List Char)
  | [] => none
  | '"' :: rest => some ([], rest)
  | '\\' :: 'u' :: rest =>
    match _h : unicodeEscape? rest with
    | none => none
    | some (c, more) => (stringBody more).map fun (s, r) => (c :: s, r)
  | '\\' :: e :: rest =>
    match shortEscape? e with
    | none => none
    | some c => (stringBody rest).map fun (s, r) => (c :: s, r)
  | c :: rest => if c = '\\' then none else (stringBody rest).map fun (s, r) => (c :: s, r)
termination_by cs => cs.length
decreasing_by
  · have := unicodeEscape?_length _h
    simp only [List.length_cons]
    omega
  · simp only [List.length_cons]
    omega
  · simp only [List.length_cons]
    omega

theorem stringBody_length {cs s rest : List Char} (h : stringBody cs = some (s, rest)) :
    rest.length < cs.length := by
  fun_induction stringBody cs generalizing s with
  | case1 => simp at h
  | case2 r =>
    simp only [Option.some.injEq, Prod.mk.injEq] at h
    simp [h.2]
  | case3 => simp at h
  | case4 r c more hm ih =>
    obtain ⟨⟨t, r'⟩, ht, he⟩ := Option.map_eq_some_iff.1 h
    simp only [Prod.mk.injEq] at he
    have := ih (he.2 ▸ ht)
    have := unicodeEscape?_length hm
    simp
    omega
  | case5 => simp at h
  | case6 e r hne c hc ih =>
    obtain ⟨⟨t, r'⟩, ht, he⟩ := Option.map_eq_some_iff.1 h
    simp only [Prod.mk.injEq] at he
    have := ih (he.2 ▸ ht)
    simp
    omega
  | case7 => simp at h
  | case8 c r _ _ _ hc ih =>
    obtain ⟨⟨t, r'⟩, ht, he⟩ := Option.map_eq_some_iff.1 h
    simp only [Prod.mk.injEq] at he
    have := ih (he.2 ▸ ht)
    simp
    omega

def isPlain (c : Char) : Bool :=
  c.isAlphanum || c = '-' || c = '+' || c = '.'

def plain? (cs : List Char) : Option Json :=
  if cs = "null".toList then some .null
  else if cs = "true".toList then some (.bool true)
  else if cs = "false".toList then some (.bool false)
  else if cs = "NaN".toList then some (.float .nan)
  else if cs = "Infinity".toList then some (.float (.infinity false))
  else if cs = "-Infinity".toList then some (.float (.infinity true))
  else
    let (negative, ds) := match cs with
      | '-' :: ds => (true, ds)
      | ds => (false, ds)
    if ds ≠ [] ∧ ds.all isAsciiDigit then
      some (.int (if negative then -(natOfDigits ds : Int) else natOfDigits ds))
    else (Decimal.readFinite cs).map fun d => .float (.ofDecimal d)

def mark? : Char → Option Token
  | '[' => some .listOpen
  | ']' => some .listClose
  | '\x7b' => some .objectOpen
  | '\x7d' => some .objectClose
  | ',' => some .comma
  | ':' => some .colon
  | _ => none

def isSpace (c : Char) : Bool := c = ' ' || c = '\n' || c = '\r' || c = '\t'

def tokens : List Char → Option (List Token)
  | [] => some []
  | c :: rest =>
    if isSpace c then tokens rest
    else if c = '"' then
      match _h : stringBody rest with
      | none => none
      | some (s, more) => (tokens more).map (.scalar (.string s) :: ·)
    else
      match mark? c with
      | some t => (tokens rest).map (t :: ·)
      | none =>
        if isPlain c then
          match plain? (c :: rest.takeWhile isPlain) with
          | none => none
          | some v => (tokens (rest.dropWhile isPlain)).map (.scalar v :: ·)
        else none
termination_by cs => cs.length
decreasing_by
  · simp
  · have := stringBody_length _h
    simp
    omega
  · simp
  · have := (List.dropWhile_sublist isPlain (l := rest)).length_le
    simp
    omega

/-- A container that is still open, with its items so far in reverse order; a field waits for the
value of its key. -/
inductive Frame where
  | list (items : List Json)
  | object (fields : List (List Char × Json))
  | field (fields : List (List Char × Json)) (key : List Char)

/-- What may come next. -/
inductive Expect where
  | value
  | itemOrClose
  | key
  | keyOrClose
  | colon (key : List Char)
  | separator
  | finished (v : Json)

/-- Hand a complete value to the innermost open container. -/
def give (v : Json) : List Frame → Option (Expect × List Frame)
  | [] => some (.finished v, [])
  | .list items :: rest => some (.separator, .list (v :: items) :: rest)
  | .field fields key :: rest => some (.separator, .object ((key, v) :: fields) :: rest)
  | .object _ :: _ => none

def step (t : Token) : Expect → List Frame → Option (Expect × List Frame)
  | .value, fs | .itemOrClose, fs =>
    match t, fs with
    | .scalar v, _ => give v fs
    | .listOpen, _ => some (.itemOrClose, .list [] :: fs)
    | .objectOpen, _ => some (.keyOrClose, .object [] :: fs)
    | _, _ => none
  | .key, fs | .keyOrClose, fs =>
    match t with
    | .scalar (.string k) => some (.colon k, fs)
    | _ => none
  | .colon k, fs =>
    match t, fs with
    | .colon, .object fields :: rest => some (.value, .field fields k :: rest)
    | _, _ => none
  | .separator, fs =>
    match t, fs with
    | .comma, .list _ :: _ => some (.value, fs)
    | .comma, .object _ :: _ => some (.key, fs)
    | .listClose, .list items :: rest => give (.list items.reverse) rest
    | .objectClose, .object fields :: rest => give (.object fields.reverse) rest
    | _, _ => none
  | .finished _, _ => none

/-- An empty container is closed where its first item may stand. -/
def stepOrClose (t : Token) (e : Expect) (fs : List Frame) : Option (Expect × List Frame) :=
  match t, e, fs with
  | .listClose, .itemOrClose, .list _ :: rest => give (.list []) rest
  | .objectClose, .keyOrClose, .object _ :: rest => give (.object []) rest
  | _, _, _ => step t e fs

def gather : List Token → Expect → List Frame → Option Json
  | [], .finished v, [] => some v
  | [], _, _ => none
  | t :: ts, e, fs =>
    match stepOrClose t e fs with
    | some (e, fs) => gather ts e fs
    | none => none

def read? (cs : List Char) : Option Json :=
  match tokens cs with
  | some ts => gather ts .value []
  | none => none

end PartScan.Json
