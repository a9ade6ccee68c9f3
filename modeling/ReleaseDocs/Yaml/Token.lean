import ReleaseDocs.Yaml.Cursor

namespace ReleaseDocs.Yaml

inductive Token where
  | versionDirective (major minor : Nat)
  | tagDirective (handle : List Char)
  | documentStart
  | documentEnd
  | blockSequenceStart
  | blockMappingStart
  | blockEnd
  | flowSequenceStart
  | flowSequenceEnd
  | flowMappingStart
  | flowMappingEnd
  | blockEntry
  | flowEntry
  | key
  | value
  | reference (anchor : List Char)
  | anchor (name : List Char)
  /-- A tag, by its handle; the tag of a verbatim or primary form has none. -/
  | tag (handle : Option (List Char))
  | scalar (text : List Char) (plain : Bool)
deriving DecidableEq, Repr

/-- The name of an anchor or of a reference after its sign; what follows it must end it. -/
def anchorName? (c : Cursor) : Option (List Char × Cursor) :=
  let (name, c) := (c.skip 1).takeRun isWord
  let ended := c.blankAt 0 || (c.peek? 0).any fun char => "?:,]\x7d%@`".toList.contains char
  if !name.isEmpty && ended then some (name, c) else none

/-- A character of a tag address. Brackets and commas count only in a verbatim one. -/
def isAddressChar (verbatim : Bool) (char : Char) : Bool :=
  isWord char || ";/?:@&=+$.%!~*'()".toList.contains char ||
    verbatim && (char == ',' || char == '[' || char == ']')

def formLength? (byte : Nat) : Option Nat :=
  if byte < 0x80 then some 1
  else if byte < 0xC0 then none
  else if byte < 0xE0 then some 2
  else if byte < 0xF0 then some 3
  else if byte < 0xF8 then some 4
  else none

/-- The byte that a percent sign and two hexadecimal digits write. -/
def percentByte? : List Char → Option Nat
  | '%' :: high :: low :: _ => numberOf? 16 [high, low]
  | _ => none

/-- The number of characters that the percent escapes of one character take here: the first byte
says how many there are, and the others must continue it. -/
def percentLength? (cs : List Char) : Option Nat := do
  let count ← formLength? (← percentByte? cs)
  let others := (List.range (count - 1)).map fun i => percentByte? (cs.drop (3 * (i + 1)))
  if others.all fun byte => byte.any fun b => 0x80 ≤ b && b < 0xC0 then some (3 * count) else none

/-- The place after a tag address, and its length in characters and escapes. -/
def address? (verbatim : Bool) (c : Cursor) : Option (Nat × Cursor) :=
  iterate (fun s : Nat × Cursor => s.2.rest.length)
    (fun (length, c) =>
      match c.peek? 0 with
      | some char =>
          if !isAddressChar verbatim char then some (.inr (length, c))
          else if char == '%' then do
            let count ← percentLength? c.rest
            some (.inl (length + 1, c.skip count))
          else some (.inl (length + 1, c.skip 1))
      | none => some (.inr (length, c)))
    (0, c)

/-- A tag handle at an exclamation mark: word characters and, if there is one, a second mark. -/
def handle? (c : Cursor) : Option (List Char × Cursor) :=
  if c.at? 0 '!' then
    let (name, next) := (c.skip 1).takeRun isWord
    if next.at? 0 '!' then some ('!' :: (name ++ ['!']), next.skip 1) else some ('!' :: name, next)
  else none

/-- The tag that starts here: an address in angle brackets, a handle with an address, or an address
of the document's own. -/
def tag? (inFlow : Bool) (c : Cursor) : Option (Token × Cursor) := do
  let (handle, next) ←
    if c.at? 1 '<' then do
      let (length, next) ← address? true (c.skip 2)
      if length > 0 && next.at? 0 '>' then some (none, next.skip 1) else none
    else do
      let (handle, next) ← handle? c
      let (length, after) ← address? false next
      if handle.length > 1 && handle.getLast? == some '!' then
        if length > 0 then some (some handle, after) else none
      else if handle == ['!'] && length == 0 then some (none, after)
      else some (some ['!'], after)
  if next.blankAt 0 || inFlow && next.at? 0 ',' then some (.tag handle, next) else none

def directiveNumber? (c : Cursor) : Option (Nat × Cursor) :=
  let (digits, next) := c.takeRun Char.isDigit
  if digits.isEmpty || digits.length > 9 then none
  else some (Nat.ofDigitChars 10 digits 0, next)

/-- The directive at a percent sign, with the end of its line. -/
def directive? (c : Cursor) : Option (Token × Cursor) := do
  let (name, c) := (c.skip 1).takeRun isWord
  if !c.blankAt 0 then none
  else if name = "YAML".toList then do
    let (major, c) ← directiveNumber? (c.skipRun isSpace)
    if c.at? 0 '.' then do
      let (minor, c) ← directiveNumber? (c.skip 1)
      let c ← c.endLine?
      some (.versionDirective major minor, c)
    else none
  else if name = "TAG".toList then do
    let (handle, c) ← handle? (c.skipRun isSpace)
    if handle != ['!'] && handle.getLast? != some '!' || !(c.peek? 0).any isSpace then none
    else do
      let (length, c) ← address? true (c.skipRun isSpace)
      if length > 0 && c.blankAt 0 then do
        let c ← c.endLine?
        some (.tagDirective handle, c)
      else none
  else none

end ReleaseDocs.Yaml
