import Quire.Toml.Item

/-!
Documents: lines that give a key a value, and headers that say which table the lines after them
belong to.
-/

namespace Quire.Toml

/-- How many arrays and inline tables may lie one inside the other, and how many names a key may
have. -/
def maxDepth : Nat := 79

/-- A character of a key without quotes. -/
def isBare (c : Char) : Bool := c.isAlphanum || c = '_' || c = '-'

/-- Reads one name of a key. -/
def keyName : Reader Key := do
  let (name, span) ← Reader.spanned do
    match ← Reader.peek? with
    | some '"' => Reader.ofText shortString?
    | some '\'' => Reader.ofText shortString?
    | _ =>
      let name ← Reader.many isBare
      guard (name ≠ [])
      return name
  return ⟨name, span⟩

/-- Reads a key of at most so many names with dots between them. -/
def keyPath : (names : Nat) → Reader (List Key)
  | 0 => failure
  | n + 1 => do
    gap
    let k ← keyName
    gap
    if ← Reader.skip ['.'] then return k :: (← keyPath n) else return [k]

/-- Reads the rest of an array, in at most so many steps, its values with the given reader. -/
def items (value : Reader Item) : (steps : Nat) → Reader (List Item)
  | 0 => failure
  | n + 1 => do
    blank
    if ← Reader.skip [']'] then return []
    let item ← value
    blank
    if ← Reader.skip [','] then return item :: (← items value n)
    Reader.literal [']']
    return [item]

/-- Reads a key and its value. -/
def pair (value : Reader Item) : Reader (List Key × Item) := do
  let path ← keyPath maxDepth
  Reader.literal ['=']
  gap
  return (path, ← value)

/-- A table with one more value under a dotted key. -/
def addPair (t : Item) (path : List Key) (value : Item) : Option Item := do
  t.insert path.dropLast (← path.getLast?) value

/-- Reads the rest of an inline table that is not empty, in at most so many steps, into the table
read so far. -/
def inlinePairs (value : Reader Item) (t : Item) : (steps : Nat) → Reader Item
  | 0 => failure
  | n + 1 => do
    let (path, v) ← pair value
    let t ← addPair t path v
    gap
    if ← Reader.skip [','] then inlinePairs value t n
    else
      Reader.literal ['}']
      return t

/-- Reads an inline table behind its opening brace. -/
def inlineTable (value : Reader Item) : Reader Item := do
  gap
  if ← Reader.skip ['}'] then return .empty .inline
  inlinePairs value (.empty .inline) (← Reader.left)

/-- Reads a value without parts. -/
def scalar : Reader Item := do
  let (s, span) ← Reader.spanned do
    match ← Reader.peek? with
    | some '"' => .string <$> Reader.ofText string?
    | some '\'' => .string <$> Reader.ofText string?
    | _ => word
  return .scalar s span

/-- Reads a value; `inner` reads those inside it. -/
def valueWith (inner : Reader Item) : Reader Item := do
  match ← Reader.peek? with
  | some '[' =>
    let (members, span) ← Reader.spanned do
      Reader.literal ['[']
      items inner (← Reader.left)
    return .array members span
  | some '{' =>
    let (t, span) ← Reader.spanned do
      Reader.literal ['{']
      inlineTable inner
    match t with
    | .table origin entries _ => return .table origin entries (some span)
    | other => return other
  | _ => scalar

/-- Reads a value inside which so many others may lie one in the other. -/
def value : (depth : Nat) → Reader Item
  | 0 => scalar
  | depth + 1 => valueWith (value depth)

/-- A document that is being read: the tables that are complete, the table whose lines are read,
the key of its header, and whether it is one of a list. -/
structure Draft where
  root : Item
  current : Item
  path : List Key
  isMember : Bool

/-- The draft of an empty document. -/
def Draft.start : Draft := ⟨.empty .header, .empty .header, [], false⟩

/-- The document with the table whose lines are read put where it belongs. -/
def Draft.finish (d : Draft) : Option Item :=
  match d.path.getLast? with
  | none => some d.current
  | some k =>
    let put := if d.isMember then Item.addMember k d.current else Item.addEntry k d.current
    (Item.change false put d.path.dropLast d.root).map (·.1)

/-- The draft after a header. -/
def Draft.open (d : Draft) (path : List Key) (isMember : Bool) (span : Span) : Option Draft := do
  let root ← d.finish
  let k ← path.getLast?
  if isMember then
    let (root, _) ← Item.change false (Item.openTables k) path.dropLast root
    return ⟨root, .table .header [] (some span), path, true⟩
  else
    let (root, entries) ← Item.change false (Item.takeImplied k) path.dropLast root
    return ⟨root, .table .header entries (some span), path, false⟩

/-- A table of the draft that reaches to the end of a value. -/
def stretch (value : Item) : Item → Item
  | .table origin entries (some span) =>
    .table origin entries (some ⟨span.start, (value.span?.map (·.stop)).getD span.stop⟩)
  | t => t

/-- The draft after a line with a key and a value. -/
def Draft.add (d : Draft) (path : List Key) (value : Item) : Option Draft := do
  return { d with current := ← addPair (stretch value d.current) path value }

/-- Reads a header. -/
def header : Reader (List Key × Bool × Span) := do
  let ((path, isMember), span) ← Reader.spanned do
    Reader.literal ['[']
    let isMember ← Reader.skip ['[']
    let path ← keyPath maxDepth
    Reader.literal (if isMember then [']', ']'] else [']'])
    return (path, isMember)
  lineEnd
  return (path, isMember, span)

/-- Reads the lines of a document, at most so many, on top of a draft. -/
def documentLines (d : Draft) : (steps : Nat) → Reader Draft
  | 0 => return d
  | n + 1 => do
    gap
    match ← Reader.peek? with
    | none => return d
    | some '[' =>
      let (path, isMember, span) ← header
      documentLines (← d.open path isMember span) n
    | some c =>
      if c = '#' ∨ c = '\n' ∨ c = '\r' then
        lineEnd
        documentLines d n
      else
        let (path, v) ← pair (value maxDepth)
        lineEnd
        documentLines (← d.add path v) n

/-- Reads a document, before which a byte order mark may stand. -/
def document : Reader Item := do
  let _ ← Reader.skip ['\ufeff']
  let d ← documentLines .start ((← Reader.left) + 1)
  guard ((← Reader.left) = 0)
  d.finish

/-- The root table of a document, if the text is one. -/
def parse? (t : Text) : Option Item := (document.run ⟨0, t⟩).map (·.1)

end Quire.Toml
