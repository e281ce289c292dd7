import Quire.Text.Basic

/-!
Why an operation on files fails, in the words in which the system reports it.
-/

namespace Quire.Disk

/-- The reasons for which an operation on files fails. -/
inductive Fault
  | notFound
  | busy
  | exists
  | notDirectory
  | isDirectory
  | invalid
  | notEmpty
  | nameTooLong
  | tooManyLinks
  | denied
  | notText
  | notRegular
  | nulInName
  | nulInCommand
deriving DecidableEq

/-- The words that the system has for a reason, and its number, if it has one. -/
def Fault.numbered? : Fault → Option (String × Nat)
  | .notFound => some ("No such file or directory", 2)
  | .denied => some ("Permission denied", 13)
  | .busy => some ("Device or resource busy", 16)
  | .exists => some ("File exists", 17)
  | .notDirectory => some ("Not a directory", 20)
  | .isDirectory => some ("Is a directory", 21)
  | .invalid => some ("Invalid argument", 22)
  | .nameTooLong => some ("File name too long", 36)
  | .notEmpty => some ("Directory not empty", 39)
  | .tooManyLinks => some ("Too many levels of symbolic links", 40)
  | _ => none

/-- The words for a reason, without a number. -/
def Fault.words : Fault → Text
  | .notText => "stream did not contain valid UTF-8".toList
  | .notRegular =>
    "the source path is neither a regular file nor a symlink to a regular file".toList
  | .nulInName => "file name contained an unexpected NUL byte".toList
  | .nulInCommand => "nul byte found in provided data".toList
  | e => (e.numbered?.map fun (words, _) => words.toList).getD []

/-- The wording of a reason. -/
def Fault.message (e : Fault) : Text :=
  match e.numbered? with
  | some (_, number) => e.words ++ " (os error ".toList ++ Text.ofNat number ++ [')']
  | none => e.words

end Quire.Disk
