import ReleaseDocs.Yaml.Scalar
import ReleaseDocs.Yaml.Token

/-!
The tokens of a text, in order. Indentation opens and closes block collections, and a colon turns
the node before it into a key, so that a key token can be inserted before tokens read earlier.
-/

namespace ReleaseDocs.Yaml

/-- Where a key without a question mark may have started. -/
structure SimpleKey where
  /-- Whether the place must turn out to be a key, since it stands at the indentation of a block
  mapping. -/
  required : Bool
  /-- The number of tokens before the key. -/
  position : Nat
  line : Nat
  column : Nat
  index : Nat

structure TokenStream where
  cursor : Cursor
  /-- The tokens so far, the last one first. -/
  tokens : List Token := []
  keyAllowed : Bool := true
  /-- The possible key at the innermost flow level, and those at the levels around it. -/
  key : Option SimpleKey := none
  outerKeys : List (Option SimpleKey) := []
  /-- The indentation of the innermost block collection, and those of the collections around it. -/
  indent : Int := -1
  outerIndents : List Int := []

namespace TokenStream

def inFlow (s : TokenStream) : Bool :=
  !s.outerKeys.isEmpty

def push (s : TokenStream) (token : Token) : TokenStream :=
  { s with tokens := token :: s.tokens }

def insertAt (s : TokenStream) (position : Nat) (token : Token) : TokenStream :=
  { s with tokens := s.tokens.insertIdx (s.tokens.length - position) token }

/-- Whether a key that started there can no longer end here: keys stay within a line and within
1024 bytes. -/
def isStale (s : TokenStream) (key : SimpleKey) : Bool :=
  key.line < s.cursor.line || key.index + 1024 < s.cursor.index

/-- Forgets the possible keys that cannot end here any more; none of them may be required. -/
def dropStaleKeys? (s : TokenStream) : Option TokenStream :=
  let stale (key : Option SimpleKey) : Bool := key.any s.isStale
  let keys := s.key :: s.outerKeys
  if keys.any fun key => stale key && key.any SimpleKey.required then none
  else
    let kept (key : Option SimpleKey) : Option SimpleKey := if stale key then none else key
    some { s with key := kept s.key, outerKeys := s.outerKeys.map kept }

/-- Gives up the possible key of this level, which must not be a required one. -/
def dropKey? (s : TokenStream) : Option TokenStream :=
  if s.key.any SimpleKey.required then none else some { s with key := none }

/-- Notes that a key may start here, where one is allowed. -/
def noteKey? (s : TokenStream) : Option TokenStream :=
  if s.keyAllowed then do
    let t ← s.dropKey?
    some { t with
      key := some
        { required := !s.inFlow && s.indent == (s.cursor.column : Int)
          position := s.tokens.length
          line := s.cursor.line
          column := s.cursor.column
          index := s.cursor.index } }
  else some s

/-- Opens a block collection at the column, if that is beyond the indentation; `opening` stands
before the token at `position`, or last. -/
def openBlock (s : TokenStream) (column : Nat) (position : Option Nat) (opening : Token) :
    TokenStream :=
  if !s.inFlow && decide (s.indent < (column : Int)) then
    let s := { s with indent := (column : Int), outerIndents := s.indent :: s.outerIndents }
    match position with
    | some position => s.insertAt position opening
    | none => s.push opening
  else s

/-- Closes the block collections whose indentation is beyond the column. -/
def closeBlocks (s : TokenStream) (column : Int) : TokenStream :=
  if s.inFlow then s else go s.indent s.outerIndents s.tokens
where
  /-- Closes collections from the innermost one on. -/
  go (indent : Int) (outer : List Int) (tokens : List Token) : TokenStream :=
    match outer with
    | [] => { s with indent := indent, outerIndents := [], tokens := tokens }
    | next :: outer =>
        if column < indent then go next outer (.blockEnd :: tokens)
        else { s with indent := indent, outerIndents := next :: outer, tokens := tokens }

def take (s : TokenStream) (length : Nat) (token : Token) (keyAllowed : Bool) : TokenStream :=
  { s.push token with cursor := s.cursor.skip length, keyAllowed := keyAllowed }

def takeTo (s : TokenStream) (cursor : Cursor) (token : Token) (keyAllowed : Bool) : TokenStream :=
  { s.push token with cursor := cursor, keyAllowed := keyAllowed }

/-- A marker or a directive: everything that is open in block context is closed before it. -/
def atTopLevel? (s : TokenStream) : Option TokenStream :=
  (s.closeBlocks (-1)).dropKey?

def openFlow? (s : TokenStream) (token : Token) : Option TokenStream := do
  let s ← s.noteKey?
  let s := { s with key := none, outerKeys := s.key :: s.outerKeys }
  some (s.take 1 token true)

def closeFlow? (s : TokenStream) (token : Token) : Option TokenStream := do
  let s ← s.dropKey?
  let s := match s.outerKeys with
    | [] => s
    | key :: outer => { s with key := key, outerKeys := outer }
  some (s.take 1 token false)

def blockEntry? (s : TokenStream) : Option TokenStream := do
  if !s.inFlow && !s.keyAllowed then none
  else
    let s ← (s.openBlock s.cursor.column none .blockSequenceStart).dropKey?
    some (s.take 1 .blockEntry true)

def explicitKey? (s : TokenStream) : Option TokenStream := do
  if !s.inFlow && !s.keyAllowed then none
  else
    let s ← (s.openBlock s.cursor.column none .blockMappingStart).dropKey?
    some (s.take 1 .key (!s.inFlow))

/-- A colon before a value: of the possible key, if there is one. -/
def value? (s : TokenStream) : Option TokenStream :=
  match s.key with
  | some key =>
      let s := s.insertAt key.position .key
      let s := s.openBlock key.column (some key.position) .blockMappingStart
      some ({ s with key := none }.take 1 .value false)
  | none =>
      if !s.inFlow && !s.keyAllowed then none
      else
        let s := s.openBlock s.cursor.column none .blockMappingStart
        some (s.take 1 .value (!s.inFlow))

/-- Whether a plain scalar can start here: not with an indicator, unless it is a dash, a question
mark or a colon that a word follows. -/
def startsPlain (s : TokenStream) (char : Char) : Bool :=
  !(isSpace char || isBreak char || "-?:,[]\x7b\x7d#&*!|>'\"%@`".toList.contains char) ||
    char == '-' && !(s.cursor.peek? 1).any isSpace ||
    !s.inFlow && (char == '?' || char == ':') && !s.cursor.blankAt 1

/-- A node that is one token: it may be a key. -/
def node? (s : TokenStream) (read? : Cursor → Option (Token × Cursor)) : Option TokenStream := do
  let s ← s.noteKey?
  let (token, cursor) ← read? s.cursor
  some (s.takeTo cursor token false)

/-- The token that starts with `char` at the cursor. -/
def nextByChar? (s : TokenStream) (char : Char) : Option TokenStream :=
  let c := s.cursor
  if c.column == 0 && char == '%' then do
    let s ← s.atTopLevel?
    let (token, cursor) ← directive? s.cursor
    some (s.takeTo cursor token false)
  else if c.markerOf '-' then do
    let s ← s.atTopLevel?
    some (s.take 3 .documentStart false)
  else if c.markerOf '.' then do
    let s ← s.atTopLevel?
    some (s.take 3 .documentEnd false)
  else if char == '[' then s.openFlow? .flowSequenceStart
  else if char == '\x7b' then s.openFlow? .flowMappingStart
  else if char == ']' then s.closeFlow? .flowSequenceEnd
  else if char == '\x7d' then s.closeFlow? .flowMappingEnd
  else if char == ',' then do
    let s ← s.dropKey?
    some (s.take 1 .flowEntry true)
  else if char == '-' && c.blankAt 1 then s.blockEntry?
  else if char == '?' && (s.inFlow || c.blankAt 1) then s.explicitKey?
  else if char == ':' && (s.inFlow || c.blankAt 1) then s.value?
  else if char == '*' then
    s.node? fun c => (anchorName? c).map fun (name, c) => (.reference name, c)
  else if char == '&' then
    s.node? fun c => (anchorName? c).map fun (name, c) => (.anchor name, c)
  else if char == '!' then s.node? (tag? s.inFlow)
  else if (char == '|' || char == '>') && !s.inFlow then do
    let s ← s.dropKey?
    let (text, cursor) ← blockScalar? (char == '|') s.indent c
    some (s.takeTo cursor (.scalar text false) true)
  else if char == '\'' || char == '"' then
    s.node? fun c =>
      (quotedScalar? (char == '\'') c).map fun (text, c) => (.scalar text false, c)
  else if s.startsPlain char then do
    let s ← s.noteKey?
    let (text, broken, cursor) ← plainScalar? s.inFlow s.indent c
    some (s.takeTo cursor (.scalar text true) broken)
  else none

def next? (s : TokenStream) : Option (TokenStream ⊕ List Token) := do
  let (cursor, keyAllowed) ← s.cursor.nextToken? s.inFlow s.keyAllowed
  let s ← { s with cursor := cursor, keyAllowed := keyAllowed }.dropStaleKeys?
  let s := s.closeBlocks (cursor.column : Int)
  match cursor.rest with
  | [] => do
      let s ← s.atTopLevel?
      some (.inr s.tokens.reverse)
  | char :: _ => (s.nextByChar? char).map .inl

end TokenStream

def tokens? (text : List Char) : Option (List Token) :=
  if text.all isAllowed then
    iterate (fun s : TokenStream => s.cursor.rest.length) TokenStream.next?
      { cursor := ⟨text, 0, 0, 0⟩ }
  else none

end ReleaseDocs.Yaml
