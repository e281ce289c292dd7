import Quire.Toml.Scalar

/-!
What a document holds, and how its tables grow. A table may be written with a header, as an inline
value, or only be implied by longer headers or by dotted keys; which of these it is decides what may
still be added to it. Every key of a table is there once, in the order in which the keys came.
-/

namespace Quire.Toml

/-- A key and where it stands. -/
structure Key where
  name : Text
  span : Span
deriving DecidableEq

/-- How a table came to be. -/
inductive Origin
  | header
  | inline
  | implied
  | dotted
deriving DecidableEq

/-- A value, a table, or a list of tables that were each written with a header. -/
inductive Item
  | scalar (s : Scalar) (span : Span)
  | array (items : List Item) (span : Span)
  | table (origin : Origin) (entries : List (Key × Item)) (span : Option Span)
  | tables (members : List Item)

namespace Item

/-- Where a single item stands, if it was written in one place. -/
def ownSpan? : Item → Option Span
  | .scalar _ span => some span
  | .array _ span => some span
  | .table _ _ span => span
  | .tables _ => none

/-- Where an item stands. A list of tables reaches from the first to the last. -/
def span? : Item → Option Span
  | .tables members => do
    let first ← (← members.head?).ownSpan?
    let last ← (← members.getLast?).ownSpan?
    return ⟨first.start, last.stop⟩
  | item => item.ownSpan?

/-- A table without entries. -/
def empty (origin : Origin) : Item := .table origin [] none

/-- The entry of the given name. -/
def find? (name : Text) (entries : List (Key × Item)) : Option Item :=
  (entries.find? (·.1.name = name)).map (·.2)

/-- The entries with another item under a name that is there. -/
def replace (name : Text) (new : Item) (entries : List (Key × Item)) : List (Key × Item) :=
  entries.map fun (k, item) => if k.name = name then (k, new) else (k, item)

/-- The entries without that of the given name. -/
def without (name : Text) (entries : List (Key × Item)) : List (Key × Item) :=
  entries.filter fun (k, _) => k.name ≠ name

/-- Whether keys may be added below a table: dotted keys reach only into tables that no one wrote,
and nothing reaches into an inline table from outside. -/
def isOpen (byDots : Bool) : Origin → Bool
  | .inline => false
  | .header => !byDots
  | .implied => true
  | .dotted => true

/-- Goes down a path of keys, making the tables that are missing, and changes the table at its end.
The way into a list of tables leads into the last of them. -/
def change (byDots : Bool) (act : Item → Option (Item × α)) :
    List Key → Item → Option (Item × α)
  | [], t => act t
  | k :: rest, .table origin entries span =>
    match find? k.name entries with
    | none => do
      let (new, a) ← change byDots act rest (empty (if byDots then .dotted else .implied))
      return (.table origin (entries ++ [(k, new)]) span, a)
    | some (.table o es s) => do
      guard (isOpen byDots o)
      let (new, a) ← change byDots act rest (.table o es s)
      return (.table origin (replace k.name new entries) span, a)
    | some (.tables members) => do
      let (new, a) ← change byDots act rest (← members.getLast?)
      return (.table origin (replace k.name (.tables (members.dropLast ++ [new])) entries) span, a)
    | some _ => none
  | _ :: _, _ => none

/-- Adds an entry under a new name. -/
def addEntry (k : Key) (item : Item) : Item → Option (Item × Unit)
  | .table origin entries span =>
    match find? k.name entries with
    | some _ => none
    | none => some (.table origin (entries ++ [(k, item)]) span, ())
  | _ => none

/-- Whether a table was made by dotted keys. -/
def isDotted : Item → Bool
  | .table .dotted _ _ => true
  | _ => false

/-- Adds a value under a dotted key. The table it goes into was made by dotted keys exactly if the
key has dots. -/
def insert (t : Item) (path : List Key) (k : Key) (value : Item) : Option Item :=
  let add (inner : Item) := if inner.isDotted = path.isEmpty then none else addEntry k value inner
  (change true add path t).map (·.1)

/-- Takes out what a new header opens: a table that longer headers implied, with its entries, or a
new one. No other item of that name may be there. -/
def takeImplied (k : Key) : Item → Option (Item × List (Key × Item))
  | .table origin entries span =>
    match find? k.name entries with
    | none => some (.table origin entries span, [])
    | some (.table .implied inner _) => some (.table origin (without k.name entries) span, inner)
    | some _ => none
  | _ => none

/-- Sees to it that a list of tables is there under a name. -/
def openTables (k : Key) : Item → Option (Item × Unit)
  | .table origin entries span =>
    match find? k.name entries with
    | none => some (.table origin (entries ++ [(k, .tables [])]) span, ())
    | some (.tables _) => some (.table origin entries span, ())
    | some _ => none
  | _ => none

/-- Adds a member to a list of tables. -/
def addMember (k : Key) (member : Item) : Item → Option (Item × Unit)
  | .table origin entries span =>
    match find? k.name entries with
    | some (.tables members) =>
      some (.table origin (replace k.name (.tables (members ++ [member])) entries) span, ())
    | _ => none
  | _ => none

end Item

end Quire.Toml
