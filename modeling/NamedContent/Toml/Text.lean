/-! # The lexical layer of TOML

Parsers over the characters of a document: blanks, comments, line ends, strings and keys.

* `Toml.Parser`: taking a value off the front of a text
* `Toml.blank`, `Toml.lineEnd`, `Toml.gap`: what stands between values
* `Toml.string`: the four kinds of string
* `Toml.key`: dotted keys
-/

namespace NamedContent.Toml

/-- A parser takes a value off the front of a text, or fails. -/
abbrev Parser := StateT (List Char) Option

/-! ## Single characters -/

/-- The next character, left where it is. -/
def peek : Parser (Option Char) := do return (← get).head?

/-- The next character. -/
def next : Parser Char := fun text =>
  match text with
  | [] => none
  | c :: rest => some (c, rest)

/-- The next character, which must be the one given. -/
def char (c : Char) : Parser Unit := do
  if (← next) = c then pure () else failure

/-- The characters given. -/
def word (w : String) : Parser Unit := fun text =>
  if w.toList.isPrefixOf text then some ((), text.drop w.length) else none

/-- The longest run of characters of a class. -/
def run (p : Char → Bool) : Parser (List Char) := fun text =>
  some (text.takeWhile p, text.dropWhile p)

/-- The first parser, or the second where the first fails. -/
def either {α : Type} (p q : Parser α) : Parser α := fun text =>
  match p text with
  | some r => some r
  | none => q text

/-- A parser that may fail. -/
def possibly {α : Type} (p : Parser α) : Parser (Option α) := either (some <$> p) (pure none)

/-- Repeats a parser on a state until it has nothing more to add, at most once a character. -/
def repeatOn {σ : Type} (step : σ → Parser (Option σ)) (s : σ) : Parser σ := fun text =>
  go text.length s text
where
  /-- Repeats at most `fuel + 1` times. -/
  go : (fuel : Nat) → σ → Parser σ
    | 0, s => do
      match ← step s with
      | none => pure s
      | some _ => failure
    | fuel + 1, s => do
      match ← step s with
      | none => pure s
      | some s => go fuel s

/-! ## Blanks, comments and line ends -/

/-- Whether a character is a space or a tab. -/
def isBlank (c : Char) : Bool := c == ' ' || c == '\t'

/-- Whether a character may stand in a comment: anything but control characters other than the
tab. -/
def isCommentChar (c : Char) : Bool := c == '\t' || (32 ≤ c.toNat && c.toNat != 127)

/-- Spaces and tabs. -/
def blank : Parser Unit := discard (run isBlank)

/-- One line feed, or a carriage return and a line feed. -/
def newline : Parser Unit := do
  match ← next with
  | '\n' => pure ()
  | '\r' => char '\n'
  | _ => failure

/-- A comment, without its line end. -/
def comment : Parser Unit := do
  char '#'
  discard (run isCommentChar)

/-- The end of a line or of the document. -/
def lineEnd : Parser Unit := do
  match ← peek with
  | none => pure ()
  | some _ => newline

/-- Blanks and a comment up to the end of the line. -/
def trailing : Parser Unit := do
  blank
  discard (possibly comment)
  lineEnd

/-- Blanks, line ends and commented lines. -/
def gap : Parser Unit := do
  blank
  repeatOn (fun _ => do
    match ← peek with
    | some '#' => do
      comment
      newline
      blank
      return some ()
    | some '\n' => do
      newline
      blank
      return some ()
    | some '\r' => do
      newline
      blank
      return some ()
    | _ => return none) ()

/-- Blanks and line ends. -/
def blankLines : Parser Unit :=
  repeatOn (fun _ => do
    match ← peek with
    | some ' ' => do
      blank
      return some ()
    | some '\t' => do
      blank
      return some ()
    | some '\n' => do
      newline
      return some ()
    | some '\r' => do
      newline
      return some ()
    | _ => return none) ()

/-! ## Strings -/

/-- Whether a character may stand for itself in a string with escapes. -/
def isBasicChar (c : Char) : Bool := isCommentChar c && c != '"' && c != '\\'

/-- Whether a character may stand in a string without escapes. -/
def isLiteralChar (c : Char) : Bool := isCommentChar c && c != '\''

/-- The value of a hexadecimal digit. -/
def hexDigit? (c : Char) : Option Nat :=
  if '0' ≤ c ∧ c ≤ '9' then some (c.toNat - 48)
  else if 'a' ≤ c ∧ c ≤ 'f' then some (c.toNat - 87)
  else if 'A' ≤ c ∧ c ≤ 'F' then some (c.toNat - 55)
  else none

/-- The character with a code point of `width` hexadecimal digits. -/
def codePoint (width : Nat) : Parser Char := do
  let n ← go width 0
  if h : n.isValidChar then pure (Char.ofNatAux n h) else failure
where
  /-- The number that so many more digits complete. -/
  go : Nat → Nat → Parser Nat
    | 0, n => pure n
    | width + 1, n => do
      let d ← StateT.lift (hexDigit? (← next))
      go width (16 * n + d)

/-- The character that stands behind a backslash. -/
def escape : Parser Char := do
  match ← next with
  | 'b' => pure (Char.ofNat 8)
  | 't' => pure '\t'
  | 'n' => pure '\n'
  | 'f' => pure (Char.ofNat 12)
  | 'r' => pure '\r'
  | '"' => pure '"'
  | '\\' => pure '\\'
  | 'u' => codePoint 4
  | 'U' => codePoint 8
  | _ => failure

/-- A string with escapes on one line. -/
def basicString : Parser String := do
  char '"'
  let chars ← repeatOn (fun acc => do
    match ← peek with
    | some '"' => return none
    | some '\\' => do
      char '\\'
      return some ((← escape) :: acc)
    | _ => do
      let c ← next
      if isBasicChar c then return some (c :: acc) else failure) []
  char '"'
  return String.ofList chars.reverse

/-- A string without escapes on one line. -/
def literalString : Parser String := do
  char '\''
  let chars ← run isLiteralChar
  char '\''
  return String.ofList chars

/-- A run of quotes inside a string over several lines: up to two are text, three to five end the
string with up to two of them as text. -/
def quotes (quote : Char) : Parser (Nat × Bool) := do
  let n := (← run (· == quote)).length
  if n < 3 then return (n, false)
  else if n ≤ 5 then return (n - 3, true)
  else failure

/-- A string over several lines, after its opening quotes. The line end right after them is
dropped. -/
def multiline (quote : Char) (plain : Char → Bool) (escapes : Bool) : Parser String := do
  discard (possibly newline)
  let (chars, ended) ← repeatOn (fun (acc, ended) => do
    if ended then return none
    match ← peek with
    | none => failure
    | some '\n' => do
      newline
      return some ('\n' :: acc, false)
    | some '\r' => do
      newline
      return some ('\n' :: acc, false)
    | some c =>
      if c = quote then do
        let (n, ended) ← quotes quote
        return some (List.replicate n quote ++ acc, ended)
      else if escapes ∧ c = '\\' then do
        char '\\'
        match ← possibly (do blank; newline) with
        | some _ => do
          blankLines
          return some (acc, false)
        | none => return some ((← escape) :: acc, false)
      else do
        let c ← next
        if plain c then return some (c :: acc, false) else failure) ([], false)
  if ended then return String.ofList chars.reverse else failure

/-- A string of any of the four kinds. -/
def string : Parser String := fun text =>
  match text with
  | '"' :: '"' :: '"' :: rest => multiline '"' isBasicChar true rest
  | '\'' :: '\'' :: '\'' :: rest => multiline '\'' isLiteralChar false rest
  | '"' :: _ => basicString text
  | '\'' :: _ => literalString text
  | _ => none

/-! ## Keys -/

/-- Whether a character may stand in a bare key. -/
def isBareKeyChar (c : Char) : Bool := c.isAlphanum || c == '_' || c == '-'

/-- One part of a key: bare, or a string on one line. -/
def simpleKey : Parser String := do
  match ← peek with
  | some '"' => basicString
  | some '\'' => literalString
  | _ => do
    let chars ← run isBareKeyChar
    if chars.isEmpty then failure else return String.ofList chars

/-- The limit on the depth of keys and values. -/
def depthLimit : Nat := 80

/-- A key of one or more parts with dots between them, as the parts before the last and the
last. -/
def key : Parser (List String × String) := do
  blank
  let first ← simpleKey
  blank
  let (before, last) ← repeatOn (fun (before, last) => do
    match ← peek with
    | some '.' => do
      char '.'
      blank
      let part ← simpleKey
      blank
      return some (last :: before, part)
    | _ => return none) ([], first)
  if before.length + 1 < depthLimit then return (before.reverse, last) else failure

end NamedContent.Toml
