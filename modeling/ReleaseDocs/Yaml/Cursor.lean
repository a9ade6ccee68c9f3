import ReleaseDocs.Text.Digits
import ReleaseDocs.Text.Reading

namespace ReleaseDocs.Yaml

def isSpace (c : Char) : Bool :=
  c == ' ' || c == '\t'

def isBreak (c : Char) : Bool :=
  c == '\n' || c == '\r' || c == '\u0085' || c == '\u2028' || c == '\u2029'

/-- A character of an anchor, of a tag handle or of a directive name. -/
def isWord (c : Char) : Bool :=
  c.isAlphanum || c == '-' || c == '_'

def isAllowed (c : Char) : Bool :=
  let n := c.toNat
  n == 0x9 || n == 0xA || n == 0xD || 0x20 ≤ n && n ≤ 0x7E || n == 0x85 ||
    0xA0 ≤ n && n ≤ 0xD7FF || 0xE000 ≤ n && n ≤ 0xFFFD || 0x10000 ≤ n

/-- What is left of a text, and where it starts: the line and the column in it, and the number of
bytes before it, all from zero. A column counts characters. -/
structure Cursor where
  rest : List Char
  line : Nat := 0
  column : Nat := 0
  index : Nat := 0
deriving Repr

namespace Cursor

def peek? (c : Cursor) (n : Nat) : Option Char :=
  c.rest[n]?

def at? (c : Cursor) (n : Nat) (char : Char) : Bool :=
  c.peek? n == some char

/-- Whether a space, a tab, a line break or the end of the text is `n` places ahead. -/
def blankAt (c : Cursor) (n : Nat) : Bool :=
  match c.peek? n with
  | none => true
  | some char => isSpace char || isBreak char

def skip (c : Cursor) (n : Nat) : Cursor :=
  { c with
    rest := c.rest.drop n
    column := c.column + n
    index := (c.rest.take n).foldl (fun index char => index + char.utf8Size) c.index }

def takeRun (c : Cursor) (p : Char → Bool) : List Char × Cursor :=
  let run := c.rest.takeWhile p
  (run, c.skip run.length)

def skipRun (c : Cursor) (p : Char → Bool) : Cursor :=
  (c.takeRun p).2

/-- The line break at this place, as a scalar holds it, and the start of the next line. A carriage
return with a line feed is one break; only the two Unicode separators are kept as they are. -/
def takeBreak? (c : Cursor) : Option (List Char × Cursor) :=
  match c.rest with
  | '\r' :: '\n' :: rest => some (['\n'], ⟨rest, c.line + 1, 0, c.index + 2⟩)
  | char :: rest =>
      if isBreak char then
        let kept := if char == '\u2028' || char == '\u2029' then char else '\n'
        some ([kept], ⟨rest, c.line + 1, 0, c.index + char.utf8Size⟩)
      else none
  | [] => none

/-- The place after the comment here, if there is one: the end of the line. -/
def skipComment (c : Cursor) : Cursor :=
  if c.at? 0 '#' then c.skipRun fun char => !isBreak char else c

/-- The start of the next line, if only spaces and a comment are left of this one. -/
def endLine? (c : Cursor) : Option Cursor :=
  let c := (c.skipRun isSpace).skipComment
  match c.takeBreak? with
  | some (_, next) => some next
  | none => if c.rest.isEmpty then some c else none

/-- Whether a document marker made of three times `char` starts a line here. -/
def markerOf (c : Cursor) (char : Char) : Bool :=
  c.column == 0 && c.at? 0 char && c.at? 1 char && c.at? 2 char && c.blankAt 3

def atMarker (c : Cursor) : Bool :=
  c.markerOf '-' || c.markerOf '.'

/-- The start of the next token: spaces, comments and line breaks are passed over, and a byte order
mark at the start of a line. Tabs count as spaces only where no block key may start. A line break
in block context allows a key again, which the second component says. -/
def nextToken? (c : Cursor) (inFlow keyAllowed : Bool) : Option (Cursor × Bool) :=
  iterate (fun s : Cursor × Bool => s.1.rest.length)
    (fun (c, keyAllowed) =>
      let c := if c.column == 0 && c.at? 0 '\uFEFF' then c.skip 1 else c
      let c := c.skipRun fun char =>
        char == ' ' || (inFlow || !keyAllowed) && char == '\t'
      let c := c.skipComment
      match c.takeBreak? with
      | some (_, next) => some (.inl (next, keyAllowed || !inFlow))
      | none => some (.inr (c, keyAllowed)))
    (c, keyAllowed)

end Cursor

end ReleaseDocs.Yaml
