import ReleaseDocs.Text.Digits
import ReleaseDocs.Toml.Reader

namespace ReleaseDocs.Toml

open Reader

/-- A character that stands for itself between two of the quotes. -/
def isPlainIn (quote c : Char) : Bool :=
  isTextChar c && c != quote && !(quote == '"' && c == '\\')

def numberedChar (count : Nat) : Reader Char := fun cs => do
  let digits := cs.take count
  let code ← numberOf? 16 digits
  if digits.length = count ∧ code.isValidChar then some (Char.ofNat code, cs.drop count)
  else none

def escape : Reader Char := do
  literal "\\"
  match ← charOf fun _ => true with
  | 'b' => return '\x08'
  | 'f' => return '\x0C'
  | 'n' => return '\n'
  | 'r' => return '\r'
  | 't' => return '\t'
  | '"' => return '"'
  | '\\' => return '\\'
  | 'u' => numberedChar 4
  | 'U' => numberedChar 8
  | _ => failure

/-- An escape where the quotes know any. -/
def escapeIn (quote : Char) : Reader (List Char) := do
  if quote == '"' then return [← escape] else failure

def lineString (quote : Char) : Reader String := do
  literal quote.toString
  let parts ← repeated (spanNonempty (isPlainIn quote) <|> escapeIn quote)
  literal quote.toString
  return String.ofList parts.flatten

/-- A backslash that ends its line: it stands for nothing, as do all spaces and line ends behind
it. -/
def continuation : Reader (List Char) := do
  literal "\\"
  spacing
  newline
  let _ ← repeated ((do let _ ← charOf isSpacing) <|> newline)
  return []

/-- One or two quotes that close nothing, since no third one follows. -/
def looseQuotes (quote : Char) : Reader (List Char) := do
  let quotes ← spanNonempty (· == quote)
  if quotes.length ≤ 2 then return quotes else failure

/-- The three quotes that close a string, behind at most two that belong to it. -/
def closingQuotes (quote : Char) : Reader (List Char) := fun cs =>
  let count := min 5 (cs.takeWhile (· == quote)).length
  if count < 3 then none else some (List.replicate (count - 3) quote, cs.drop count)

/-- A string of any number of lines between three quotes on either side; a line end right after the
first three is dropped. -/
def multilineString (quote : Char) : Reader String := do
  let fence := String.ofList (List.replicate 3 quote)
  literal fence
  let _ ← maybe newline
  let parts ← repeated
    (spanNonempty (isPlainIn quote) <|> (do newline; return ['\n']) <|> looseQuotes quote <|>
      (if quote == '"' then continuation else failure) <|> escapeIn quote)
  let last ← closingQuotes quote
  return String.ofList (parts.flatten ++ last)

def string : Reader String :=
  multilineString '"' <|> lineString '"' <|> multilineString '\'' <|> lineString '\''

def isKeyChar (c : Char) : Bool :=
  c.isAlphanum || c == '-' || c == '_'

def simpleKey : Reader String :=
  lineString '"' <|> lineString '\'' <|> String.ofList <$> spanNonempty isKeyChar

/-- Keys have fewer parts than this, and arrays and tables in one another fewer levels. -/
def nestingBound : Nat := 80

/-- The path and the last part of a key, whose parts may have spaces around them. -/
def key : Reader (List String × String) := do
  let parts ← separated (literal ".") (do spacing; let part ← simpleKey; spacing; return part)
  match parts.getLast? with
  | some last => if parts.length < nestingBound then return (parts.dropLast, last) else failure
  | none => failure

end ReleaseDocs.Toml
