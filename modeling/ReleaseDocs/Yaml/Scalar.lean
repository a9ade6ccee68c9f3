import ReleaseDocs.Yaml.Cursor

namespace ReleaseDocs.Yaml

/-- White space between the words of a scalar: the spaces of one line, or else the first line break
and those after it. -/
structure Gap where
  spaces : List Char := []
  firstBreak : List Char := []
  otherBreaks : List Char := []
  broken : Bool := false
deriving Repr

/-- What the gap stands for: spaces for themselves, one line break for a space, further ones for
themselves. -/
def Gap.text (gap : Gap) : List Char :=
  if !gap.broken then gap.spaces
  else if gap.firstBreak.head? == some '\n' then
    if gap.otherBreaks.isEmpty then [' '] else gap.otherBreaks
  else gap.firstBreak ++ gap.otherBreaks

/-- The white space here and what follows it. With `tabLimit`, a tab at the start of a line and
left of that column is refused. -/
def Gap.read? (gap : Gap) (tabLimit : Option Int) (c : Cursor) : Option (Gap × Cursor) :=
  iterate (fun s : Gap × Cursor => s.2.rest.length)
    (fun (gap, c) =>
      match c.rest with
      | [] => some (.inr (gap, c))
      | char :: _ =>
          if isSpace char then
            let early := match tabLimit with
              | some limit => decide ((c.column : Int) < limit)
              | none => false
            if gap.broken && char == '\t' && early then none
            else if gap.broken then some (.inl (gap, c.skip 1))
            else some (.inl ({ gap with spaces := gap.spaces ++ [char] }, c.skip 1))
          else
            match c.takeBreak? with
            | some (kept, next) =>
                if gap.broken then
                  some (.inl ({ gap with otherBreaks := gap.otherBreaks ++ kept }, next))
                else some (.inl ({ firstBreak := kept, broken := true }, next))
            | none => some (.inr (gap, c)))
    (gap, c)

/-- The character that an escape in double quotes stands for, by the letter after the backslash. -/
def escapedChar? : Char → Option Char
  | '0' => some '\x00'
  | 'a' => some '\x07'
  | 'b' => some '\x08'
  | 't' => some '\t'
  | '\t' => some '\t'
  | 'n' => some '\n'
  | 'v' => some '\x0B'
  | 'f' => some '\x0C'
  | 'r' => some '\r'
  | 'e' => some '\x1B'
  | ' ' => some ' '
  | '"' => some '"'
  | '/' => some '/'
  | '\\' => some '\\'
  | 'N' => some '\u0085'
  | '_' => some '\u00A0'
  | 'L' => some '\u2028'
  | 'P' => some '\u2029'
  | _ => none

def escapeDigits? : Char → Option Nat
  | 'x' => some 2
  | 'u' => some 4
  | 'U' => some 8
  | _ => none

/-- The escape at the backslash here: its character and the place after it. -/
def escape? (c : Cursor) : Option (Char × Cursor) := do
  let letter ← c.peek? 1
  match escapedChar? letter with
  | some char => some (char, c.skip 2)
  | none =>
      let count ← escapeDigits? letter
      let digits := (c.rest.drop 2).take count
      if digits.length = count then
        let code ← numberOf? 16 digits
        if code.isValidChar then some (Char.ofNat code, c.skip (2 + count)) else none
      else none

/-- The scalar in quotes that starts here: its text and the place after the closing quote. Single
quotes know no escape but the doubled quote. -/
def quotedScalar? (single : Bool) (c : Cursor) : Option (List Char × Cursor) :=
  let quote := if single then '\'' else '"'
  iterate (fun s : List Char × Cursor => s.2.rest.length)
    (fun (text, c) =>
      if c.atMarker then none
      else
        match c.rest with
        | [] => none
        | char :: rest =>
            if char == quote then
              if single && rest.head? == some quote then
                some (.inl (quote :: text, c.skip 2))
              else some (.inr (text.reverse, c.skip 1))
            else if !single && char == '\\' then
              match (c.skip 1).takeBreak? with
              | some (_, next) => do
                  let (gap, next) ← Gap.read? { broken := true } none next
                  some (.inl (gap.text.reverse ++ text, next))
              | none => do
                  let (escaped, next) ← escape? c
                  some (.inl (escaped :: text, next))
            else if isSpace char || isBreak char then do
              let (gap, next) ← Gap.read? {} none c
              some (.inl (gap.text.reverse ++ text, next))
            else some (.inl (char :: text, c.skip 1)))
    ([], c.skip 1)

/-- A character that ends a plain scalar, or starts no other one, within brackets or braces. -/
def isFlowIndicator (c : Char) : Bool :=
  c == ',' || c == '[' || c == ']' || c == '\x7b' || c == '\x7d'

/-- A plain scalar while it is read: its text so far, latest character first, the gap behind it,
and whether the next character comes first after a gap. -/
structure PlainScalar where
  text : List Char := []
  gap : Gap := {}
  fresh : Bool := true
  cursor : Cursor

/-- What there is of the scalar: its text, whether a line has ended since, and the place. -/
def PlainScalar.finish (s : PlainScalar) : List Char × Bool × Cursor :=
  (s.text.reverse, s.gap.broken, s.cursor)

/-- The plain scalar that starts here: its text, whether the gap behind it holds a line break, and
the place after that gap. In block context it goes on only in lines that are indented beyond
`indent`. -/
def plainScalar? (inFlow : Bool) (indent : Int) (c : Cursor) :
    Option (List Char × Bool × Cursor) :=
  iterate (fun s : PlainScalar => s.cursor.rest.length)
    (fun s =>
      let c := s.cursor
      if s.fresh && (c.atMarker || c.at? 0 '#') then some (.inr s.finish)
      else
        match c.rest with
        | [] => some (.inr s.finish)
        | char :: _ =>
            if isSpace char || isBreak char then do
              let (gap, next) ← Gap.read? {} (some (indent + 1)) c
              let s : PlainScalar := ⟨s.text, gap, true, next⟩
              if !inFlow && decide ((next.column : Int) < indent + 1) then some (.inr s.finish)
              else some (.inl s)
            else if inFlow && char == ':' &&
                ((c.peek? 1).any fun after => after == '?' || isFlowIndicator after) then none
            else if char == ':' && c.blankAt 1 || inFlow && isFlowIndicator char then
              some (.inr s.finish)
            else some (.inl ⟨char :: (s.gap.text.reverse ++ s.text), {}, false, c.skip 1⟩))
    { cursor := c }

/-- What a block scalar does with the line breaks at its end: drop them all, keep the first, or
keep them all. -/
inductive Chomping where
  | strip
  | clip
  | keep
deriving DecidableEq, Repr

def chomping? : Char → Option Chomping
  | '+' => some .keep
  | '-' => some .strip
  | _ => none

/-- The indentation that an indicator asks for; zero is refused. -/
def indentation? (c : Cursor) : Option (Nat × Cursor) :=
  match c.peek? 0 with
  | some char =>
      if char == '0' then none
      else if char.isDigit then some (char.toNat - '0'.toNat, c.skip 1)
      else some (0, c)
  | none => some (0, c)

/-- The indicators after the sign of a block scalar, in either order. -/
def blockHeader? (c : Cursor) : Option (Chomping × Nat × Cursor) :=
  match (c.peek? 0).bind chomping? with
  | some chomping => do
      let (increment, c) ← indentation? (c.skip 1)
      some (chomping, increment, c)
  | none => do
      let (increment, next) ← indentation? c
      if increment = 0 then some (.clip, 0, c)
      else
        match (next.peek? 0).bind chomping? with
        | some chomping => some (chomping, increment, next.skip 1)
        | none => some (.clip, increment, next)

/-- The indentation and the empty lines before the next line of a block scalar: the line breaks,
the indentation, and the place. With `indent` zero the indentation is found here: that of the line
or of the longest blank line before it, but beyond `parent`. -/
def blockBreaks? (indent : Nat) (parent : Int) (c : Cursor) : Option (List Char × Nat × Cursor) :=
  iterate (fun s : List Char × Nat × Cursor => s.2.2.rest.length)
    (fun (breaks, longest, c) =>
      let inside (column : Nat) : Bool := indent == 0 || decide (column < indent)
      let spaces := (c.rest.takeWhile (· == ' ')).length
      let c := c.skip (if indent == 0 then spaces else min spaces (indent - c.column))
      let longest := max longest c.column
      if inside c.column && c.at? 0 '\t' then none
      else
        match c.takeBreak? with
        | some (kept, next) => some (.inl (breaks ++ kept, longest, next))
        | none =>
            let found := if indent == 0 then max (max longest (parent + 1).toNat) 1 else indent
            some (.inr (breaks, found, c)))
    ([], 0, c)

structure BlockScalar where
  text : List Char := []
  lineBreak : List Char := []
  emptyLines : List Char := []
  /-- Whether the last line started with white space, so that it is not folded. -/
  spaced : Bool := false
  cursor : Cursor

/-- The block scalar that starts here: its text and the place after it. A literal one keeps all
line breaks; a folded one turns a single break between two lines that do not start with white space
into a space. -/
def blockScalar? (literal : Bool) (parent : Int) (c : Cursor) : Option (List Char × Cursor) := do
  let (chomping, increment, c) ← blockHeader? (c.skip 1)
  let c ← c.endLine?
  let given := if increment = 0 then 0 else (max parent 0).toNat + increment
  let (emptyLines, indent, c) ← blockBreaks? given parent c
  iterate (fun s : BlockScalar => s.cursor.rest.length)
    (fun s =>
      let c := s.cursor
      if c.column = indent ∧ c.rest ≠ [] then do
        let spaced := (c.peek? 0).any isSpace
        let folded := !literal && s.lineBreak.head? == some '\n' && !s.spaced && !spaced
        let joint :=
          if folded then (if s.emptyLines.isEmpty then [' '] else []) else s.lineBreak
        let (line, c) := c.takeRun fun char => !isBreak char
        let (lineBreak, c) := (c.takeBreak?).getD ([], c)
        let (emptyLines, _, c) ← blockBreaks? indent parent c
        some (.inl ⟨s.text ++ joint ++ s.emptyLines ++ line, lineBreak, emptyLines, spaced, c⟩)
      else
        let tail := match chomping with
          | .strip => []
          | .clip => s.lineBreak
          | .keep => s.lineBreak ++ s.emptyLines
        some (.inr (s.text ++ tail, c)))
    { emptyLines := emptyLines, cursor := c }

end ReleaseDocs.Yaml
