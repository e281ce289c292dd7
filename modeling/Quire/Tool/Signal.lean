import Quire.Text.Basic

/-!
The signals of the system: their names, how they are described, and what they do to a process that
does not care for them.
-/

namespace Quire.Tool

namespace Signal

/-- The names of the signals that have one, beginning with the first. -/
def names : List String :=
  ["HUP", "INT", "QUIT", "ILL", "TRAP", "ABRT", "BUS", "FPE", "KILL", "USR1", "SEGV", "USR2",
    "PIPE", "ALRM", "TERM", "STKFLT", "CHLD", "CONT", "STOP", "TSTP", "TTIN", "TTOU", "URG",
    "XCPU", "XFSZ", "VTALRM", "PROF", "WINCH", "IO", "PWR", "SYS"]

/-- The descriptions of these signals. -/
def descriptions : List String :=
  ["Hangup", "Interrupt", "Quit", "Illegal instruction", "Trace/breakpoint trap", "Aborted",
    "Bus error", "Floating point exception", "Killed", "User defined signal 1",
    "Segmentation fault", "User defined signal 2", "Broken pipe", "Alarm clock", "Terminated",
    "Stack fault", "Child exited", "Continued", "Stopped (signal)", "Stopped",
    "Stopped (tty input)", "Stopped (tty output)", "Urgent I/O condition",
    "CPU time limit exceeded", "File size limit exceeded", "Virtual timer expired",
    "Profiling timer expired", "Window changed", "I/O possible", "Power failure",
    "Bad system call"]

/-- The greatest number of a signal. -/
def greatest : Nat := 64

/-- The first of the signals that are kept for programs of their own. -/
def firstFree : Nat := 34

/-- The name of a signal, if it has one. -/
def name? (signal : Nat) : Option Text :=
  if signal = 0 then none else (names[signal - 1]?).map String.toList

/-- The description of a signal. -/
def description (signal : Nat) : Text :=
  match signal with
  | 0 => "Unknown signal 0".toList
  | n + 1 =>
    match descriptions[n]? with
    | some t => t.toList
    | none =>
      if firstFree ≤ signal then "Real-time signal ".toList ++ Text.ofNat (signal - firstFree)
      else "Unknown signal ".toList ++ Text.ofNat signal

/-- The signals that pass a process by when it does not care for them, or stop it. -/
def spared : List Nat := [17, 18, 19, 20, 21, 22, 23, 28]

/-- Whether a signal ends a process that does not care for it. -/
def ends (signal : Nat) : Bool := signal ≠ 0 && !spared.contains signal

end Signal

end Quire.Tool
