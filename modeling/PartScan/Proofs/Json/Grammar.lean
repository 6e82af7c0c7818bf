import PartScan.Json.Basic

/-! # The grammar of data values

What the texts of the interchange format stand for. A relation `R t x r` says that the front of the
text `t` stands for `x` and that `r` is the rest behind it.
-/

namespace PartScan.Json

open Number

/-! ## Texts in quotes -/

def hexDigits : List (Char × Nat) :=
  [('0', 0), ('1', 1), ('2', 2), ('3', 3), ('4', 4), ('5', 5), ('6', 6), ('7', 7), ('8', 8),
   ('9', 9), ('a', 10), ('b', 11), ('c', 12), ('d', 13), ('e', 14), ('f', 15), ('A', 10),
   ('B', 11), ('C', 12), ('D', 13), ('E', 14), ('F', 15)]

/-- Four hexadecimal digits stand for a unit. -/
inductive HexUnit : List Char → Nat → List Char → Prop
  | mk {a b c d : Char} {i j k l : Nat} {r : List Char} (ha : (a, i) ∈ hexDigits)
    (hb : (b, j) ∈ hexDigits) (hc : (c, k) ∈ hexDigits) (hd : (d, l) ∈ hexDigits) :
    HexUnit (a :: b :: c :: d :: r) (((16 * i + j) * 16 + k) * 16 + l) r

def shortEscapes : List (Char × Char) :=
  [('"', '"'), ('\\', '\\'), ('/', '/'), ('b', '\x08'), ('f', '\x0c'), ('n', '\n'), ('r', '\r'),
   ('t', '\t')]

/-- A character stands for itself unless it is a control, a quote or a backslash. Units that are
surrogates have a meaning only as a pair. -/
inductive Character : List Char → Char → List Char → Prop
  | plain {c : Char} {r : List Char} (hlow : ' ' ≤ c) (hquote : c ≠ '"') (hback : c ≠ '\\') :
    Character (c :: r) c r
  | short {e c : Char} {r : List Char} (h : (e, c) ∈ shortEscapes) :
    Character ('\\' :: e :: r) c r
  | unit {n : Nat} {t r : List Char} (h : HexUnit t n r) (hn : n < 0xd800 ∨ 0xdfff < n) :
    Character ('\\' :: 'u' :: t) (Char.ofNat n) r
  | pair {m n : Nat} {t u r : List Char} (h : HexUnit t n ('\\' :: 'u' :: u))
    (hn : 0xd800 ≤ n ∧ n ≤ 0xdbff) (h' : HexUnit u m r) (hm : 0xdc00 ≤ m ∧ m ≤ 0xdfff) :
    Character ('\\' :: 'u' :: t) (Char.ofNat (0x10000 + (n - 0xd800) * 0x400 + (m - 0xdc00))) r

/-- The text up to the closing quote. -/
inductive Body : List Char → List Char → List Char → Prop
  | close {r : List Char} : Body ('"' :: r) [] r
  | cons {c : Char} {t u s r : List Char} (hc : Character t c u) (h : Body u s r) :
    Body t (c :: s) r

/-! ## Numbers -/

/-- Digits without a needless zero in front. -/
inductive Whole : List Char → Prop
  | zero : Whole ['0']
  | digits {d : Char} {ds : List Char} (hd : isAsciiDigit d = true) (hzero : d ≠ '0')
    (hds : ∀ c ∈ ds, isAsciiDigit c = true) : Whole (d :: ds)

/-- The digits behind a point, if one is there. -/
inductive Fraction : List Char → List Char → Prop
  | absent : Fraction [] []
  | present {ds : List Char} (hds : ∀ c ∈ ds, isAsciiDigit c = true) (hne : ds ≠ []) :
    Fraction ('.' :: ds) ds

inductive Exponent : List Char → Int → Prop
  | absent : Exponent [] 0
  | bare {e : Char} {ds : List Char} (he : e = 'e' ∨ e = 'E')
    (hds : ∀ c ∈ ds, isAsciiDigit c = true) (hne : ds ≠ []) :
    Exponent (e :: ds) (natOfDigits ds)
  | plus {e : Char} {ds : List Char} (he : e = 'e' ∨ e = 'E')
    (hds : ∀ c ∈ ds, isAsciiDigit c = true) (hne : ds ≠ []) :
    Exponent (e :: '+' :: ds) (natOfDigits ds)
  | minus {e : Char} {ds : List Char} (he : e = 'e' ∨ e = 'E')
    (hds : ∀ c ∈ ds, isAsciiDigit c = true) (hne : ds ≠ []) :
    Exponent (e :: '-' :: ds) (-(natOfDigits ds : Int))

/-- A number with neither fraction nor exponent is an integer, any other the double nearest to the
decimal that is written. -/
inductive Numeral : List Char → Json → Prop
  | nat {ds : List Char} (h : Whole ds) : Numeral ds (.int (natOfDigits ds))
  | neg {ds : List Char} (h : Whole ds) : Numeral ('-' :: ds) (.int (-(natOfDigits ds : Int)))
  | real {ds ft fs et : List Char} {e : Int} {negative : Bool} (h : Whole ds) (hf : Fraction ft fs)
    (he : Exponent et e) (hreal : ft ++ et ≠ []) :
    Numeral ((if negative then ['-'] else []) ++ (ds ++ (ft ++ et)))
      (.float (.ofDecimal (.finite negative (natOfDigits (ds ++ fs)) (e - fs.length))))

/-! ## Values -/

inductive Blanks : List Char → List Char → Prop
  | nil {r : List Char} : Blanks r r
  | cons {c : Char} {t r : List Char} (hc : c ∈ [' ', '\n', '\r', '\t']) (h : Blanks t r) :
    Blanks (c :: t) r

/-- A name in quotes with its colon, blanks around both. -/
inductive Name : List Char → List Char → List Char → Prop
  | mk {t u w x k r : List Char} (hfront : Blanks t ('"' :: u)) (hname : Body u k w)
    (hcolon : Blanks w (':' :: x)) (hback : Blanks x r) : Name t k r

/-- What a text can stand for: a value, or the inside of a list or an object up to its end. -/
inductive Form where
  | value (v : Json)
  | items (vs : List Json)
  | fields (fs : List (List Char × Json))

inductive Spells : List Char → Form → List Char → Prop
  | null {r : List Char} : Spells ("null".toList ++ r) (.value .null) r
  | true {r : List Char} : Spells ("true".toList ++ r) (.value (.bool true)) r
  | false {r : List Char} : Spells ("false".toList ++ r) (.value (.bool false)) r
  | number {v : Json} {t r : List Char} (h : Numeral t v) : Spells (t ++ r) (.value v) r
  | string {t s r : List Char} (h : Body t s r) : Spells ('"' :: t) (.value (.string s)) r
  | emptyList {t r : List Char} (h : Blanks t (']' :: r)) : Spells ('[' :: t) (.value (.list [])) r
  | list {vs : List Json} {t r : List Char} (h : Spells t (.items vs) r) :
    Spells ('[' :: t) (.value (.list vs)) r
  | emptyObject {t r : List Char} (h : Blanks t ('\x7d' :: r)) :
    Spells ('\x7b' :: t) (.value (.object [])) r
  | object {fs : List (List Char × Json)} {t r : List Char} (h : Spells t (.fields fs) r) :
    Spells ('\x7b' :: t) (.value (.object fs)) r
  | lastItem {v : Json} {t u w r : List Char} (hfront : Blanks t u) (h : Spells u (.value v) w)
    (hback : Blanks w (']' :: r)) : Spells t (.items [v]) r
  | item {v : Json} {vs : List Json} {t u w x r : List Char} (hfront : Blanks t u)
    (h : Spells u (.value v) w) (hback : Blanks w (',' :: x)) (hrest : Spells x (.items vs) r) :
    Spells t (.items (v :: vs)) r
  | lastField {v : Json} {t k u w r : List Char} (hname : Name t k u) (h : Spells u (.value v) w)
    (hback : Blanks w ('\x7d' :: r)) : Spells t (.fields [(k, v)]) r
  | field {v : Json} {fs : List (List Char × Json)} {t k u w x r : List Char} (hname : Name t k u)
    (h : Spells u (.value v) w) (hback : Blanks w (',' :: x)) (hrest : Spells x (.fields fs) r) :
    Spells t (.fields ((k, v) :: fs)) r

/-- The whole text stands for the value, blanks around it. -/
inductive Denotes : List Char → Json → Prop
  | mk {v : Json} {t u w : List Char} (hfront : Blanks t u) (h : Spells u (.value v) w)
    (hback : Blanks w []) : Denotes t v

end PartScan.Json
