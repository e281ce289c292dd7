import Quire.Build.Visit
import Quire.Path.Algebra

/-!
Directories that are copied as they are. Each is looked for beside the source root first and inside
it then; one that is in neither place is no matter, and a file that cannot be copied is only warned
about.
-/

namespace Quire.Build

/-- The directory of a name, beside the source root or inside it. -/
def locate (d : Disk) (source : Path) (name : Text) : Option Path :=
  ((source.parent?.map (·.child name)).toList ++ [source.child name]).find? d.isDir

/-- Copies one file of a directory, and counts it. -/
def copyFile (dir dst : Path) (count : Nat) (names : List Text) : Met → Job Nat
  | .unlisted e => do
    say .warn ("skipping unreadable entry in ".toList ++
      Failure.because (Failure.quote dir.text) (Failure.onVisit (below dir names) e))
    return count
  | .file => do
    let src := below dir names
    if isIgnored src then return count
    else
      match ← (change (Disk.copyInto src (below dst names)) (.notCopied src)).attempt with
      | .error f =>
        say .warn f.message
        return count
      | .ok () =>
        detail .assets src.text
        return count + 1

/-- Copies the files of a directory, except those of the output, and counts them. -/
def copyDir (output dir dst : Path) (count : Nat) : Job Nat :=
  if output.isWithin dir then return count
  else
    let visit : Visit Nat := ⟨dir, output.isWithin, copyFile dir dst⟩
    visit.run count

/-- Copies the directories of the given names, and counts their files. -/
def copyVerbatim (source output : Path) (names : List Text) : Job Nat :=
  names.foldlM (fun count name => do
    match ← look (locate · source name) with
    | none => return count
    | some dir => copyDir output dir (output.child name) count) 0

end Quire.Build
