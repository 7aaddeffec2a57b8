import Leasehold.Text.Numeral

/-!
# Text in TOML

Text is basic, in double quotes and with escapes, or literal, in single quotes and as it stands.
Either is written on one line, or as a block between triple quotes.  A block loses the line break
behind its opening quotes; it may hold up to two quotes in a row, also just before the closing
ones.  In a basic block, a backslash at the end of a line takes the line break along, and all
blanks and line breaks that follow.

Line breaks are a line feed, with or without a carriage return before it, and are kept as line
feeds.  Of the controls only the tab may stand in text.
-/

namespace Leasehold.Toml

/-- Reads something at the front of a text, and gives the rest. -/
abbrev Reader (α : Type) := List Char → Option (α × List Char)

/-! ## Characters -/

/-- Whether a character may stand between the parts of a line. -/
def isBlank (c : Char) : Bool := c == ' ' || c == '\t'

/-- Whether a character may stand in a comment or in text. -/
def isPlain (c : Char) : Bool :=
  c == '\t' || (decide (0x20 ≤ c.toNat) && c.toNat != 0x7F)

/-- The character that an escape of one letter stands for. -/
def letterEscape? : Char → Option Char
  | 'b' => some '\x08'
  | 't' => some '\t'
  | 'n' => some '\n'
  | 'f' => some '\x0c'
  | 'r' => some '\r'
  | '"' => some '"'
  | '\\' => some '\\'
  | _ => none

/-- The character of a number in hexadecimal digits. -/
def numberEscape? (ds : List Char) : Option Char :=
  (Numeral.value? 16 ds).bind fun n => if n.isValidChar then some (Char.ofNat n) else none

/-- Puts a character in front of what was read. -/
def consRead (c : Char) : Option (List Char × List Char) → Option (List Char × List Char) :=
  Option.map fun (cs, rest) => (c :: cs, rest)

/-- What is kept of the quotes behind the closing ones of a block: at most two. -/
def closingQuotes (quote : Char) : List Char → List Char × List Char
  | a :: b :: rest =>
      if a = quote then if b = quote then ([a, b], rest) else ([a], b :: rest)
      else ([], a :: b :: rest)
  | [a] => if a = quote then ([a], []) else ([], [a])
  | [] => ([], [])

/-! ## Basic text -/

/-- Where the reader of basic text is. -/
inductive Mode where
  /-- In text on one line. -/
  | line
  /-- In a block. -/
  | block
  /-- In a block, behind a backslash and blanks, before the line break. -/
  | breaking
  /-- In a block, behind a backslash and line breaks. -/
  | trimming
deriving DecidableEq, Repr

/-- Basic text up to its closing quotes. -/
def basic? (mode : Mode) : Reader (List Char)
  | [] => none
  | '\r' :: '\n' :: rest =>
      match mode with
      | .line => none
      | .block => consRead '\n' (basic? .block rest)
      | .breaking | .trimming => basic? .trimming rest
  | '\n' :: rest =>
      match mode with
      | .line => none
      | .block => consRead '\n' (basic? .block rest)
      | .breaking | .trimming => basic? .trimming rest
  | c :: rest =>
      if mode = .breaking then if isBlank c then basic? .breaking rest else none
      else if mode = .trimming ∧ isBlank c then basic? .trimming rest
      else
        let plain := if mode = .line then .line else .block
        match c, rest with
        | '"', rest =>
            if mode = .line then some ([], rest)
            else match rest with
              | '"' :: '"' :: rest => some (closingQuotes '"' rest)
              | rest => consRead '"' (basic? .block rest)
        | '\\', 'u' :: a :: b :: c :: d :: rest =>
            (numberEscape? [a, b, c, d]).bind fun c => consRead c (basic? plain rest)
        | '\\', 'U' :: a :: b :: c :: d :: e :: f :: g :: h :: rest =>
            (numberEscape? [a, b, c, d, e, f, g, h]).bind fun c => consRead c (basic? plain rest)
        | '\\', c :: rest =>
            if mode ≠ .line ∧ isBlank c then basic? .breaking rest
            else if mode ≠ .line ∧ c = '\n' then basic? .trimming rest
            else if mode ≠ .line ∧ c = '\r' then
              match rest with
              | '\n' :: rest => basic? .trimming rest
              | _ => none
            else (letterEscape? c).bind fun c => consRead c (basic? plain rest)
        | '\\', [] => none
        | c, rest => if isPlain c then consRead c (basic? plain rest) else none

/-! ## Literal text -/

/-- Literal text on one line up to its closing quote. -/
def literalLine? : Reader (List Char)
  | [] => none
  | c :: rest =>
      if c = '\'' then some ([], rest)
      else if isPlain c then consRead c (literalLine? rest) else none

/-- A literal block up to its closing quotes. -/
def literalBlock? : Reader (List Char)
  | [] => none
  | '\r' :: '\n' :: rest => consRead '\n' (literalBlock? rest)
  | '\'' :: '\'' :: '\'' :: rest => some (closingQuotes '\'' rest)
  | c :: rest =>
      if c = '\n' ∨ isPlain c then consRead c (literalBlock? rest) else none

/-! ## Text -/

/-- A text without a line break at its front. -/
def dropBreak : List Char → List Char
  | '\r' :: '\n' :: rest => rest
  | '\n' :: rest => rest
  | cs => cs

/-- Text on one line, in quotes of either kind. -/
def lineText? : Reader (List Char)
  | '"' :: rest => basic? .line rest
  | '\'' :: rest => literalLine? rest
  | _ => none

/-- Text, in any form. -/
def text? : Reader (List Char)
  | '"' :: '"' :: '"' :: rest => basic? .block (dropBreak rest)
  | '\'' :: '\'' :: '\'' :: rest => literalBlock? (dropBreak rest)
  | cs => lineText? cs

end Leasehold.Toml
