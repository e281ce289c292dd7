import Quire.Disk.Directory
import Quire.Failure
import Quire.Log

/-!
Jobs: what a command does to the disk, to its standard output and to its log, one step after the
other. What a job did before it failed stays done.
-/

namespace Quire.Build

/-- What a job works on. -/
structure Work where
  disk : Disk
  /-- What was written on the standard output. -/
  shown : Text := []
  log : List Log.Line := []

/-- Why a job ends early. A failure can be recorded and the build go on; an extension that would
lead to another directory ends everything. -/
inductive Stop
  | failure (f : Failure)
  | badExtension (ext : Text)

/-- A job that gives an answer or ends early. -/
abbrev Job := ExceptT Stop (StateM Work)

/-- What the disk says. -/
def look (ask : Disk → α) : Job α := return ask (← get).disk

/-- Ends a job with a failure. -/
def fail (f : Failure) : Job α := throw (.failure f)

/-- Ends a job with a failure unless there is an answer. -/
def orFail (wording : ε → Failure) : Except ε α → Job α
  | .ok a => pure a
  | .error e => fail (wording e)

/-- Changes the disk. -/
def change (c : Disk.Change) (wording : Disk.Fault → Failure) : Job Unit := do
  let w ← get
  let (answer, after) := c w.disk
  set { w with disk := after }
  orFail wording answer

/-- The answer of a job, or the failure that ended it. -/
def Job.attempt (job : Job α) : Job (Except Failure α) :=
  tryCatch (job >>= fun a => pure (.ok a)) fun
    | .failure f => pure (.error f)
    | stop => throw stop

/-- Writes a line into the log. -/
def note (l : Log.Line) : Job Unit := modify fun w => { w with log := w.log ++ [l] }

/-- Writes a message into the log. -/
def say (topic : Log.Topic) (message : Text) : Job Unit := note ⟨topic, message, false⟩

/-- Writes a message into the log for those who want to know more. -/
def detail (topic : Log.Topic) (message : Text) : Job Unit := note ⟨topic, message, true⟩

/-- Writes on the standard output. -/
def display (t : Text) : Job Unit := modify fun w => { w with shown := w.shown ++ t }

end Quire.Build
