import Quire.Text.Lossy
import Quire.Tool.Diagnostics
import Quire.Tool.Signal

/-!
How a tool ended, and what it said.
-/

namespace Quire.Tool

/-- How a tool ended: by itself with a code, or by a signal. -/
inductive Status
  | exited (code : Nat)
  | killed (signal : Nat)
deriving DecidableEq

/-- Whether a tool did what it was asked. -/
def Status.isSuccess (s : Status) : Bool := s = .exited 0

/-- The wording of how a tool ended. -/
def Status.message : Status → Text
  | .exited code => "exit status: ".toList ++ Text.ofNat code
  | .killed signal =>
    "signal: ".toList ++ Text.ofNat signal ++
      match Signal.name? signal with
      | some name => " (SIG".toList ++ name ++ [')']
      | none => []

/-- How a tool ended and what it wrote on its two streams. -/
structure Output where
  status : Status
  said : ByteArray
  errors : ByteArray

/-- The diagnostics of a tool. Bytes that are no text are replaced. -/
def Output.diagnostics (o : Output) : Text :=
  Tool.diagnostics (Text.ofBytesLossy o.errors) (Text.ofBytesLossy o.said)

end Quire.Tool
