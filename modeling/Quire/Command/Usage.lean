import Quire.Command.Arguments

/-!
What the program says about itself, and about a command line that it does not carry out.
-/

namespace Quire.Command

/-- The lines of a block, each with its end. -/
def block (lines : List String) : Text := lines.flatMap fun l => l.toList ++ ['\n']

/-- The program's name and version. -/
def versionLine : Text := block ["pagewright 0.1.0"]

/-- What the whole program is for. -/
def topHelp : Text := block [
  "build-time transpiler and route/manifest generator for page-based templates",
  "",
  "Usage: pagewright [OPTIONS] <COMMAND>",
  "",
  "Commands:",
  "  build  Transpile a template file, or a whole project directory",
  "  clean  Remove the output directory",
  "  help   Print this message or the help of the given subcommand(s)",
  "",
  "Options:",
  "  -C, --config <CONFIG>  Config file path (default: pagewright.toml) [default: pagewright.toml]",
  "  -v, --verbose          Log every processed file",
  "  -h, --help             Print help",
  "  -V, --version          Print version"]

/-- What a build takes, in short. -/
def buildHelp : Text := block [
  "Transpile a template file, or a whole project directory",
  "",
  "Usage: pagewright build [OPTIONS] <PATH>",
  "",
  "Arguments:",
  "  <PATH>  Template file or project directory",
  "",
  "Options:",
  "  -o, --output <OUTPUT>  Output directory (default: .pagewright)",
  "  -h, --help             Print help (see more with '--help')"]

/-- What a build takes, in full. -/
def buildLongHelp : Text := block [
  "Transpile a template file, or a whole project directory",
  "",
  "A single file is written to stdout unless `--output` is given.",
  "",
  "Usage: pagewright build [OPTIONS] <PATH>",
  "",
  "Arguments:",
  "  <PATH>",
  "          Template file or project directory",
  "",
  "Options:",
  "  -o, --output <OUTPUT>",
  "          Output directory (default: .pagewright)",
  "",
  "  -h, --help",
  "          Print help (see a summary with '-h')"]

/-- What cleaning takes. -/
def cleanHelp : Text := block [
  "Remove the output directory",
  "",
  "Usage: pagewright clean [OPTIONS]",
  "",
  "Options:",
  "  -o, --output <OUTPUT>  Output directory (default: .pagewright)",
  "  -h, --help             Print help"]

/-- What the command takes that explains the others. -/
def helpHelp : Text := block [
  "Print this message or the help of the given subcommand(s)",
  "",
  "Usage: pagewright help [COMMAND]...",
  "",
  "Arguments:",
  "  [COMMAND]...  Print help for the subcommand(s)"]

/-- How a level is used. -/
def Level.usage : Level → Text
  | .top => "pagewright [OPTIONS] <COMMAND>".toList
  | .build => "pagewright build [OPTIONS] <PATH>".toList
  | .clean => "pagewright clean [OPTIONS]".toList

/-- The name of a slot in messages. -/
def Slot.label : Slot → Text
  | .option .config => "--config <CONFIG>".toList
  | .option .verbose => "--verbose".toList
  | .option .output => "--output <OUTPUT>".toList
  | .option .help => "--help".toList
  | .option .version => "--version".toList
  | .path => "<PATH>".toList

/-- A text between single quotes. -/
def singly (t : Text) : Text := '\'' :: (t ++ ['\''])

/-- A refusal in full: what is wrong, how to use the level, and where to read more. -/
def complaint (what : Text) (usage : Option Text) : Text :=
  "error: ".toList ++ what ++ "\n\n".toList ++
    ((usage.map fun u => "Usage: ".toList ++ u ++ "\n\n".toList).getD []) ++
    "For more information, try '--help'.\n".toList

/-- The advice to a build that met an option it does not know. -/
def passAsValue (level : Level) (arg : Text) : Text :=
  if level = .build ∧ arg.head? = some '-' then
    "\n\n  tip: to pass ".toList ++ singly arg ++ " as a value, use ".toList ++
      singly ("-- ".toList ++ arg)
  else []

/-- What is shown to whoever gave a command line that is not carried out. -/
def Refusal.message : Refusal → Text
  | .help .top _ => topHelp
  | .help .build long => if long then buildLongHelp else buildHelp
  | .help .clean _ => cleanHelp
  | .helpOnHelp => helpHelp
  | .version => versionLine
  | .nothingGiven => topHelp
  | .noCommand =>
    complaint ("'pagewright' requires a subcommand but one was not provided\n".toList ++
      "  [subcommands: build, clean, help]".toList) (some Level.top.usage)
  | .unknownCommand name =>
    complaint ("unrecognized subcommand ".toList ++ singly name) (some Level.top.usage)
  | .unknownArgument level arg =>
    complaint ("unexpected argument ".toList ++ singly arg ++ " found".toList ++
      passAsValue level arg) (some level.usage)
  | .missingPath withOutput =>
    complaint "the following required arguments were not provided:\n  <PATH>".toList
      (some (if withOutput then "pagewright build --output <OUTPUT> <PATH>".toList
        else "pagewright build <PATH>".toList))
  | .missingValue slot =>
    complaint ("a value is required for ".toList ++ singly slot.label ++
      " but none was supplied".toList) none
  | .unwantedValue level o value =>
    complaint ("unexpected value ".toList ++ singly value ++ " for ".toList ++
      singly (Slot.option o).label ++ " found; no more were expected".toList) (some level.usage)
  | .givenTwice level slot =>
    complaint ("the argument ".toList ++ singly slot.label ++
      " cannot be used multiple times".toList) (some level.usage)

/-- Whether the program did what it was asked by showing a text about itself. -/
def Refusal.isAnswer : Refusal → Bool
  | .help _ _ => true
  | .helpOnHelp => true
  | .version => true
  | _ => false

end Quire.Command
