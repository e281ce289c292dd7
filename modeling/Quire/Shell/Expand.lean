import Quire.Shell.Runs
import Quire.Shell.Sum

/-!
What the words of a command stand for, once parameters, the output of commands and sums are put into
them.
-/

namespace Quire.Shell

namespace Expand

/-- The letters of the options, in the order in which they are shown. -/
def optionLetters : List Char := "pubaCEVvxsnmiIfe".toList

/-- The text that joins words in one value. -/
def joint (s : State) : Text := s.separators.take 1

/-- Whether a parameter stands for all words. -/
def isAll (name : Text) : Bool := name = ['@'] || name = ['*']

/-- The value of a parameter. -/
def parameter? (s : State) (name : Text) : Option Text :=
  match name with
  | ['@'] => some ((joint s).intercalate s.words)
  | ['*'] => some ((joint s).intercalate s.words)
  | ['#'] => some (Text.ofNat s.words.length)
  | ['?'] => some (Text.ofNat s.last)
  | ['$'] => some (Text.ofNat s.process)
  | ['!'] => s.detached.head?.map fun (n, _) => Text.ofNat n
  | ['-'] => some (optionLetters.filter s.options.contains)
  | _ =>
    match digits? name with
    | some 0 => some s.name
    | some (n + 1) => s.words[n]?
    | none => s.value? name

/-- What a value that was put in stands for: between quotes for itself, and else for something that
is cut at separators. -/
def put (quoted : Bool) (t : Text) : List Glyph :=
  if quoted then t.map (.char · true false) else .seam :: t.map (.char · false true)

/-- Whether a parameter stands for several words that stay apart. -/
def staysApart (m : Mode) (name : Text) (quoted : Bool) : Bool :=
  m.full && (name = ['@'] || (name = ['*'] && !quoted))

/-- What several words stand for. -/
def putWords (quoted : Bool) (words : List Text) : List Glyph :=
  if quoted then
    [Glyph.cut].intercalate (words.map fun t => t.map (.char · true false) ++ [.mark])
  else .seam :: [Glyph.gap].intercalate (words.map fun t => t.map (.char · false true))

/-- What all words stand for. -/
def putAll (s : State) (m : Mode) (name : Text) (quoted : Bool) : List Glyph :=
  if staysApart m name quoted then putWords quoted s.words
  else put quoted ((joint s).intercalate s.words)

/-- What the value of a parameter stands for. -/
def value (m : Mode) (name : Text) (quoted : Bool) : Does (List Glyph) := do
  let s ← get
  if isAll name then return putAll s m name quoted
  match parameter? s name with
  | some t => return put quoted t
  | none =>
    if s.has 'u' then giveUp (name ++ lit ": parameter not set")
    return []

/-- The text that glyphs leave. -/
def textOf (gs : List Glyph) : Text :=
  gs.filterMap fun
    | .char c _ _ => some c
    | _ => none

/-- The text of a word that stays one word. -/
def text (self : Runs) (w : Word) : Does Text := return textOf (← self.glyphs { full := false } w)

/-- The pattern that a word stands for. -/
def pattern (self : Runs) (w : Word) : Does Pattern :=
  return patternOf (← self.glyphs { full := false } w)

/-- Gives a parameter a value. Only variables can have one. -/
def assign (name t : Text) : Does Unit := do
  if !isName name then giveUp (name ++ lit ": bad variable name")
  store name t

/-- A parameter without a value where one is demanded. -/
def demanded (self : Runs) (name : Text) (orNull : Bool) (w : Word) : Does (List Glyph) := do
  let why ←
    if w.isEmpty then
      pure (lit "parameter not set" ++ if orNull then lit " or null" else [])
    else text self w
  giveUp (name ++ lit ": " ++ why)

/-- What a parameter stands for, used in some way. -/
def parameter (self : Runs) (m : Mode) (name : Text) (u : Use) (orNull : Bool) (w : Word)
    (quoted : Bool) : Does (List Glyph) := do
  let s ← get
  let value? := (parameter? s name).filter fun t => !(orNull && t.isEmpty)
  let other : Does (List Glyph) := self.glyphs { m with cuts := !quoted, colons := false } w
  match u with
  | .value => value m name quoted
  | .orElse => if value?.isSome then value m name quoted else other
  | .andThen => if value?.isSome then other else return []
  | .assign =>
    if value?.isNone then assign name (← text self w)
    value m name quoted
  | .demand => if value?.isSome then value m name quoted else demanded self name orNull w
  | .length =>
    if (parameter? s name).isNone then discard (value m name quoted)
    return put quoted (Text.ofNat ((parameter? s name).getD []).length)
  | .cut atEnd longest =>
    if (parameter? s name).isNone then discard (value m name quoted)
    let p ← pattern self w
    if staysApart m name quoted ∧ s.words ≠ [] then
      let t := p.cut atEnd longest (['\x00'].intercalate s.words)
      return putWords quoted (Text.fields '\x00' t)
    return put quoted (p.cut atEnd longest ((parameter? s name).getD []))
  | .unknown => giveUp (lit "Bad substitution")

/-- The number of a sum. -/
def sum (expression : Text) : Does Int := do
  let s ← get
  match Sum.evaluate s.value? expression with
  | .error e => giveUp (e.message expression)
  | .ok (n, stored) =>
    stored.forM fun (name, k) => store name (ofInt k)
    return n

/-- The home directory that a text begins with, and what follows it. It reaches up to a slash, or a
colon where that may end it, or the end of the text if the word ends there. -/
def home? (s : State) (colons isLast : Bool) (t : Text) : Option (Text × Text) :=
  match t with
  | '~' :: rest =>
    let ends (c : Char) : Bool := c = '/' || (colons && c = ':')
    let name := rest.takeWhile fun c => !ends c
    let after := rest.drop name.length
    if after = [] ∧ ¬ isLast then none
    else if name = [] then (s.value? (lit "HOME")).map (·, after)
    else if name = lit "root" then some (lit "/root", after)
    else none
  | _ => none

/-- What a text of a word stands for, at its beginning or behind a colon. -/
def opening (s : State) (m : Mode) (isLast : Bool) (t : Text) : List Glyph :=
  let plain (t : Text) : List Glyph := t.map (.char · false m.cuts)
  match home? s m.colons isLast t with
  | some (home, rest) => home.map (.char · true false) ++ plain rest
  | none => plain t

/-- What an unquoted text of a word stands for. -/
def literal (s : State) (m : Mode) (isFirst isLast : Bool) (t : Text) : List Glyph :=
  let seam : List Glyph := if m.cuts then [.seam] else []
  let plain (t : Text) : List Glyph := t.map (.char · false m.cuts)
  if m.colons then
    let fields := Text.fields ':' t
    let shown := fields.mapIdx fun i f =>
      let isEnd := isLast || i + 1 < fields.length
      if i = 0 ∧ ¬ isFirst then plain f else opening s m isEnd f
    seam ++ (plain [':']).intercalate shown
  else seam ++ if isFirst then opening s m isLast t else plain t

/-- What the parts of a word stand for. -/
def parts (self : Runs) (m : Mode) (isFirst : Bool) : Word → Does (List Glyph)
  | [] => return []
  | .text t quoted :: rest => do
    let s ← get
    let here :=
      if quoted then t.map (.char · true false) else literal s m isFirst rest.isEmpty t
    return here ++ (← parts self m false rest)
  | .mark :: rest => return .mark :: (← parts self m false rest)
  | .parameter name u orNull w quoted :: rest => do
    let here ← parameter self m name u orNull w quoted
    return here ++ (← parts self m false rest)
  | .written c quoted :: rest => do
    let (status, t) ← gathering self (match c with
      | some c => self.command { isLast := true } c
      | none => pure 0)
    receiveSent
    modify fun s => { s with lastWritten := status }
    let kept := ((t.filter (· ≠ '\x00')).reverse.dropWhile (· = '\n')).reverse
    return put quoted kept ++ (← parts self m false rest)
  | .sum w quoted :: rest => do
    let n ← sum (← text self w)
    return put quoted (ofInt n) ++ (← parts self m false rest)

/-- What a word stands for. -/
def glyphs (self : Runs) (m : Mode) (w : Word) : Does (List Glyph) := parts self m true w

/-- The names in a directory, also those of the directory itself and of the one above. -/
def namesIn (s : State) (dir : Text) : List Text :=
  let path := if dir = [] then ['.'] else dir
  match s.disk.node? (pathOf path) with
  | .ok (.dir children) => [['.'], ['.', '.']] ++ children.map fun (name, _) => spread name
  | _ => []

/-- The words that fit a pattern by being paths of files; the pattern itself if there are none. -/
def paths (s : State) (p : Pattern) : List Text :=
  if p.isOpen ∧ ¬ s.has 'f' then
    match p.paths (namesIn s) (fun t => (s.disk.nodeItself? (pathOf t)).toOption.isSome) with
    | [] => [p.text]
    | found => found
  else [p.text]

/-- The words that a word stands for. -/
def words (self : Runs) (w : Word) : Does (List Text) := do
  let gs ← self.glyphs {} w
  let s ← get
  return (fields s.separators none gs).flatMap fun f => paths s (patternOf f)

/-- The text that a word assigns. -/
def assigned (self : Runs) (w : Word) : Does Text :=
  return textOf (← self.glyphs { full := false, colons := true } w)

end Expand

end Quire.Shell
