import Quire.Shell.Expand
import Quire.Shell.Source

/-!
Redirections. All names are expanded before the first file is opened; then the files are opened one
by one, so what was done before a failure stays done.
-/

namespace Quire.Shell

namespace Streams

/-- A redirection of which the name is known. -/
inductive Ready
  | file (stream : Nat) (access : Access) (path : Text)
  /-- To where another stream goes; without one the stream is closed. -/
  | copy (stream : Nat) (source : Option Nat)
  | here (stream : Nat) (w : Word)

/-- The stream that a word names. -/
def source (t : Text) : Does (Option Nat) := do
  let wrong : Does (Option Nat) := do
    modify fun s => { s with line := s.ahead }
    giveUp (lit "Syntax error: " ++ Misreading.badStream.message)
  match t with
  | ['-'] => return none
  | [d] => if d.isDigit then return digits? [d] else wrong
  | _ => wrong

/-- Expands the name in a redirection. -/
def ready (self : Runs) : Redirection → Does Ready
  | .file stream access w => return .file stream access (← Expand.text self w)
  | .copy stream w => return .copy stream (← source (← Expand.text self w))
  | .here stream number => return .here stream (((← get).heres.lookup number).getD [])

/-- Why a file cannot be used, where the system's words are not enough. -/
def reason (e : Disk.Fault) (missing : String) : Text :=
  if e = .notFound ∨ e = .notDirectory then lit missing else e.words

/-- The stream that is meant by a path of the system's own. -/
def mirrored? (path : Text) : Option Nat :=
  if path = lit "/dev/stdin" then some 0
  else if path = lit "/dev/stdout" then some 1
  else if path = lit "/dev/stderr" then some 2
  else if path.take 8 = lit "/dev/fd/" then digits? (path.drop 8)
  else none

/-- A file that is opened for reading. -/
def input (s : State) (path : Text) : Except Disk.Fault Channel := do
  let place ← s.disk.place? (pathOf path)
  match s.world.root.get? place with
  | some (.file _) => return .file place
  | some (.dir _) => return .directory
  | some .sink => return .nothing
  | _ => throw .notFound

/-- A file that is opened for writing, and the tree with that file in it. A file that has to be new
may not be there, and one that is to be empty loses what is in it. -/
def output (s : State) (new empty : Bool) (path : Text) :
    Except Disk.Fault (Channel × Disk.Node) := do
  let p := pathOf path
  if new ∧ ¬ s.disk.has p ∧ (s.disk.nodeItself? p).toOption.isSome then throw .exists
  let place ← s.disk.target? p
  match s.world.root.get? place with
  | some .sink => return (.nothing, s.world.root)
  | some _ =>
    if new then throw .exists
    return (.file place, if empty then (s.disk.fill place .empty).root else s.world.root)
  | none => return (.file place, (s.disk.fill place .empty).root)

/-- Opens a file. -/
def opened (access : Access) (path : Text) : Does Nat := do
  let s ← get
  let add (o : Opening) : Does Nat := modifyGet fun s => s.opened o
  let reads := access = .input || access = .both
  let writes := access ≠ .input
  let appends := access = .append
  match (mirrored? path).bind s.opening? with
  | some (_, ⟨.gathered n, _, _, _, _⟩) => add ⟨.gathered n, 0, true, reads, writes⟩
  | some (_, ⟨.nothing, _, _, _, _⟩) => add ⟨.nothing, 0, appends, reads, writes⟩
  | _ =>
    if access = .input then
      match input s path with
      | .ok channel => add { channel, reads }
      | .error e => giveUp (lit "cannot open " ++ path ++ lit ": " ++ reason e "No such file")
    else
      let new := access = .output && s.has 'C'
      let verb := if new ∧ s.disk.has (pathOf path) then "open " else "create "
      match output s new (access = .output || access = .clobber) path with
      | .ok (channel, root) =>
        set { s with world := { s.world with root } }
        add { channel, appends, reads, writes }
      | .error e =>
        let verb := if e = .exists then "create " else verb
        giveUp (lit "cannot " ++ lit verb ++ path ++ lit ": " ++ reason e "Directory nonexistent")

/-- Connects a stream. -/
def connect (self : Runs) : Ready → Does Unit
  | .file stream access path => do
    let n ← opened access path
    modify fun s => s.connect stream (some n)
  | .copy stream none => modify fun s => s.connect stream none
  | .copy stream (some source) => do
    if source ≠ stream then
      match (← get).streams.lookup source with
      | some n => modify fun s => s.connect stream (some n)
      | none => giveUp (Text.ofNat source ++ lit ": Bad file descriptor")
  | .here stream w => do
    let t ← Expand.text self w
    let (k, s) := (← get).gathering (gather t)
    let (n, s) := s.opened { channel := .gathered k, reads := true }
    set (s.connect stream (some n))

/-- Expands and connects redirections. -/
def redirect (self : Runs) (rs : List Redirection) : Does Unit := do
  (← rs.mapM (ready self)).forM (connect self)

/-- Connects streams, and tells whether nothing went wrong. -/
def connectAll (self : Runs) (rs : List Ready) : Does Bool := do
  match ← attempt (rs.forM (connect self)) with
  | .ok () => return true
  | .error .fails => return false
  | .error stop => throw stop

/-- The stream of a redirection. -/
def stream : Redirection → Nat
  | .file n _ _ => n
  | .copy n _ => n
  | .here n _ => n

/-- Does something, and then connects the streams of redirections as they were. -/
def restoring (rs : List Redirection) (does : Does α) : Does α := do
  let before := (← get).streams
  let result ← attempt does
  modify fun s => (rs.map stream).foldl (fun s n => s.connect n (before.lookup n)) s
  match result with
  | .ok a => return a
  | .error stop => throw stop

end Streams

end Quire.Shell
