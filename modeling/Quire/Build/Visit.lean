import Quire.Build.Job

/-!
Visits to the files below a directory, in the order of their names, directories where their names
stand. Links are not followed, but a visit may start at one.
-/

namespace Quire.Build

/-- What a visit meets: a file, or a directory that cannot be listed. -/
inductive Met
  | file
  | unlisted (cause : Disk.Fault)

/-- A visit: where it starts, what it passes by, and what is done with what it meets, which is
given as the names that lead there from the start. -/
structure Visit (σ : Type) where
  root : Path
  skips : Path → Bool
  meet : σ → List Text → Met → Job σ

/-- The path that names lead to. -/
def below (root : Path) (names : List Text) : Path := names.foldl Path.child root

namespace Visit

variable {σ : Type} (v : Visit σ)

/-- Visits what is below the directory that the names lead to, at most so deep. -/
def visitBelow : (depth : Nat) → List Text → σ → Job σ
  | 0, _, s => return s
  | depth + 1, names, s => do
    match ← look (·.listing (below v.root names)) with
    | .error e => v.meet s names (.unlisted e)
    | .ok entries =>
      entries.foldlM (fun s (name, kind) => do
        let names := names ++ [name]
        if v.skips (below v.root names) then return s
        else
          match kind with
          | .file => v.meet s names .file
          | .dir => visitBelow depth names s
          | .link => return s
          | .device => return s) s

/-- Visits everything from the start on. What the start itself is called does not matter. Every step
down makes the path longer, and a directory with too long a path cannot be listed: so the visit
ends, even if what is done with a file makes the tree higher. -/
def run (s : σ) : Job σ := do
  let depth := Disk.maxPath
  match ← look (·.nodeItself? v.root) with
  | .error e => v.meet s [] (.unlisted e)
  | .ok (.file _) => v.meet s [] .file
  | .ok (.dir _) => v.visitBelow depth [] s
  | .ok .sink => return s
  | .ok (.link _) =>
    match ← look (·.node? v.root) with
    | .error e => v.meet s [] (.unlisted e)
    | .ok (.dir _) => v.visitBelow depth [] s
    | .ok _ => return s

end Visit

/-- Whether a file is left lying by which a file browser keeps notes. -/
def isIgnored (p : Path) : Bool := p.fileName?.getD p.text = ".DS_Store".toList

end Quire.Build
