import ReleaseDocs.Text.Reading

namespace ReleaseDocs.Toml

/-- Takes characters from the front of a text and gives what they stand for. -/
abbrev Reader (α : Type) := StateT (List Char) Option α

namespace Reader

def peek? : Reader (Option Char) := fun cs =>
  some (cs.head?, cs)

def charOf (p : Char → Bool) : Reader Char
  | [] => none
  | c :: cs => if p c then some (c, cs) else none

/-- Takes all characters of a class up to the first other one. -/
def span (p : Char → Bool) : Reader (List Char) := fun cs =>
  some (cs.takeWhile p, cs.dropWhile p)

/-- Takes at least one character of a class, and all up to the first other one. -/
def spanNonempty (p : Char → Bool) : Reader (List Char) := do
  let run ← span p
  if run.isEmpty then failure else return run

def literal (text : String) : Reader Unit := fun cs =>
  (after? text.toList cs).map ((), ·)

def atEnd : Reader Unit := fun cs =>
  if cs.isEmpty then some ((), cs) else none

def maybe {α : Type} (item : Reader α) : Reader (Option α) :=
  some <$> item <|> pure none

/-- Takes items as long as there are any; an item takes at least one character. -/
def repeated {α : Type} (item : Reader α) : Reader (List α) := fun cs =>
  iterate (fun s : List α × List Char => s.2.length)
    (fun (items, cs) =>
      match item cs with
      | some (a, rest) => some (.inl (a :: items, rest))
      | none => some (.inr (items.reverse, cs)))
    ([], cs)

/-- Takes items with a separator between any two of them, at least one. -/
def separated {α : Type} (separator : Reader Unit) (item : Reader α) : Reader (List α) := do
  let first ← item
  let others ← repeated (do separator; item)
  return first :: others

end Reader

open Reader

def isSpacing (c : Char) : Bool :=
  c == ' ' || c == '\t'

/-- A character that may stand in comments and strings: no control character but the tab. -/
def isTextChar (c : Char) : Bool :=
  c == '\t' || ' ' ≤ c && c ≤ '~' || 0x80 ≤ c.toNat

def spacing : Reader Unit := do
  let _ ← span isSpacing

def newline : Reader Unit :=
  literal "\n" <|> literal "\r\n"

def comment : Reader Unit := do
  literal "#"
  let _ ← span isTextChar

/-- The rest of a line that holds nothing more, with its end. -/
def lineEnd : Reader Unit := do
  spacing
  let _ ← maybe comment
  newline <|> atEnd

/-- Spaces, line ends and comments, in any number. -/
def layout : Reader Unit := do
  let _ ← repeated ((do let _ ← charOf isSpacing) <|> newline <|> comment)

end ReleaseDocs.Toml
