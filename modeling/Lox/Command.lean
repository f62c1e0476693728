import Lox.Program.Format
import Lox.Session

/-!
The command line: which command its arguments ask for, and what the command writes and how it exits.
A command is a function of the contents of its file and of the bytes on standard input.
-/

namespace Lox

inductive Command
  | tokenize (path : String) (format : Format)
  | parse (path : String) (format : Format)
  | run (path : String) (format : Format)
  | repl (format : Format)
  | version
  | help
deriving DecidableEq, Inhabited

namespace Command

/-- The options and paths given to a command. -/
structure Options where
  format : Option Format
  paths : List String
deriving DecidableEq, Inhabited

/-- Adds the format option, which may be given once. -/
def Options.withFormat (o : Options) (name : String) : Option Options :=
  match o.format, Format.ofName? name with
  | none, some format => some { o with format := some format }
  | _, _ => none

/-- Adds a path, which is not empty, to at most `room` of them. -/
def Options.withPath (room : Nat) (o : Options) (path : String) : Option Options :=
  if path.isEmpty || room ≤ o.paths.length then none
  else some { o with paths := o.paths ++ [path] }

/-- What the arguments after the name of a command say: a request for help, or options. -/
inductive Reading
  | help
  | options (o : Options)
  | wrong
deriving DecidableEq, Inhabited

/-- The format in an argument of the form `--format=NAME`. -/
def formatIn? (argument : String) : Option String :=
  let key := "--format=".toList
  if key.isPrefixOf argument.toList then some (String.ofList (argument.toList.drop key.length))
  else none

/-- Whether an argument asks for help. -/
def asksHelp (argument : String) : Bool :=
  argument == "--help" || "-h".toList.isPrefixOf argument.toList

/-- Whether an argument is an option by its form. A single dash is none. -/
def isOption (argument : String) : Bool :=
  "-".toList.isPrefixOf argument.toList && argument != "-"

/-- Reads the arguments of a command that takes at most `room` paths, up to the first that is wrong
or asks for help. After `--` all are paths. -/
def readOptions (room : Nat) (o : Options) : List String → Reading
  | [] => .options o
  | argument :: rest =>
    if argument = "--" then
      match rest.foldlM (Options.withPath room) o with
      | some o => .options o
      | none => .wrong
    else if argument = "--format" then
      match rest with
      | [] => .wrong
      | name :: rest =>
        match o.withFormat name with
        | some o => readOptions room o rest
        | none => .wrong
    else
      match formatIn? argument with
      | some name =>
        match o.withFormat name with
        | some o => readOptions room o rest
        | none => .wrong
      | none =>
        if asksHelp argument then .help
        else if isOption argument then .wrong
        else
          match o.withPath room argument with
          | some o => readOptions room o rest
          | none => .wrong

/-- A command that takes one path. -/
def onPath (command : String → Format → Command) (arguments : List String) : Option Command :=
  match readOptions 1 ⟨none, []⟩ arguments with
  | .help => some .help
  | .options ⟨format, [path]⟩ => some (command path (format.getD .basic))
  | _ => none

/-- The interactive command, which takes no path. -/
def onLines (arguments : List String) : Option Command :=
  match readOptions 0 ⟨none, []⟩ arguments with
  | .help => some .help
  | .options ⟨format, []⟩ => some (.repl (format.getD .basic))
  | _ => none

/-- The command that arguments ask for, if they are well formed. -/
def ofArguments? : List String → Option Command
  | [] => some (.repl .basic)
  | "tokenize" :: rest => onPath .tokenize rest
  | "parse" :: rest => onPath .parse rest
  | "run" :: rest => onPath .run rest
  | "repl" :: rest => onLines rest
  | "help" :: [] => some .help
  | "help" :: topic :: [] =>
    if ["tokenize", "parse", "run", "repl", "help"].contains topic then some .help else none
  | "--" :: [] => some (.repl .basic)
  | argument :: _ =>
    if argument == "--version" || "-V".toList.isPrefixOf argument.toList then some .version
    else if asksHelp argument then some .help
    else none

/-- The path of the file that a command reads. -/
def path? : Command → Option String
  | .tokenize path _ | .parse path _ | .run path _ => some path
  | _ => none

/-- Whether a command reads standard input. -/
def readsInput : Command → Bool
  | .run _ _ | .repl _ => true
  | _ => false

/-- What a command leaves behind. -/
structure Outcome where
  exit : Nat
  written : String
  complaints : String
deriving DecidableEq, Inhabited

/-- The exit code for texts with mistakes. -/
def exitData : Nat :=
  65

/-- The exit code for runtime errors. -/
def exitSoftware : Nat :=
  70

/-- The exit code for files that cannot be read as text. -/
def exitFile : Nat :=
  74

/-- The exit code for wrong arguments. -/
def exitUsage : Nat :=
  2

/-- The exit code for input lines that are no text. -/
def exitInput : Nat :=
  1

/-- The name and number of the program. -/
def versionText : String :=
  "loxide 1.0.0\n"

def usageText : String :=
  "Usage: loxide [tokenize PATH | parse PATH | run PATH | repl] [--format basic|pretty|debug]\n"

/-- Lines of text, each with its newline. -/
def ofLines (lines : List String) : String :=
  String.join (lines.map (· ++ "\n"))

/-- Writes every token, and complains of every lexical mistake. -/
def tokenizeText (format : Format) (path : String) (text : List Char) : Outcome :=
  let lines := Lines.ofText text
  let scan := Scan.items text
  let errors := (Scan.errors scan).map Diagnostic.lexical
  ⟨if errors.isEmpty then 0 else exitData,
    ofLines ((Scan.tokens scan).map (Token.inFormat format lines)),
    ofLines (errors.map (Diagnostic.inFormat format path lines))⟩

/-- The outcome for a text with mistakes. -/
def rejected (format : Format) (path : String) (text : List Char) (ds : List Diagnostic) : Outcome :=
  ⟨exitData, "", ofLines (ds.map (Diagnostic.inFormat format path (Lines.ofText text)))⟩

/-- Writes every statement. -/
def parseText (format : Format) (path : String) (text : List Char) : Outcome :=
  match Source.program text with
  | .error ds => rejected format path text ds
  | .ok statements => ⟨0, ofLines (statements.map (Statement.inFormat format)), ""⟩

/-- What is said of a run that was abandoned. -/
def abandonedText : Stop → String
  | .error e => e.plain
  | .outOfFuel => "The run takes too long."
  | .defect _ => "The program is broken."

/-- What is said of a text after it was run in a session. -/
def complaint (format : Format) (path : String) (text : List Char) : Session.Outcome → String
  | .rejected ds => ofLines (ds.map (Diagnostic.inFormat format path (Lines.ofText text)))
  | .finished => ""
  | .failed e => e.inFormat format path (Lines.ofText text) ++ "\n"
  | .abandoned stop => abandonedText stop ++ "\n"

/-- The exit code of a run. -/
def exitOf : Session.Outcome → Nat
  | .rejected _ => exitData
  | .finished => 0
  | .failed _ | .abandoned _ => exitSoftware

/-- Runs a text on input, showing a prompt before each line that it reads. -/
def runText (format : Format) (path : String) (text : List Char) (input : List InputLine)
    (now : Clock) : Outcome :=
  let s := State.fresh now ⟨"", input, Console.inputPrompt⟩
  let (outcome, t) := Session.feed Run.ampleFuel text s
  ⟨exitOf outcome, t.console.written, complaint format path text outcome⟩

/-- The name under which lines of an interactive session are reported. -/
def replPath : String :=
  "<repl>"

/-- What is shown before each line of an interactive session. -/
def replPrompt : String :=
  "> "

/-- Runs lines of input, at most `n` of them, until there are no more; the programs read from the
same input. A line that is no text ends the session. -/
def replLines (format : Format) (n : Nat) (s : State) (complaints : String) : Outcome :=
  let (line, console) := (s.console.write replPrompt).next
  match n, line with
  | _, none => ⟨0, console.written, complaints⟩
  | _, some .unreadable =>
    ⟨exitInput, console.written, complaints ++ "The input is not valid UTF-8.\n"⟩
  | 0, some (.text _) => ⟨0, console.written, complaints⟩
  | n + 1, some (.text line) =>
    let (outcome, t) := Session.feed Run.ampleFuel line.toList { s with console }
    replLines format n t (complaints ++ complaint format replPath line.toList outcome)

/-- An interactive session on all of the input. -/
def interact (format : Format) (input : List InputLine) (now : Clock) : Outcome :=
  replLines format input.length (State.fresh now ⟨"", input, Console.inputPrompt⟩) ""

/-- Works on the text of a file, after saying what it does. -/
def onFile (activity path : String) (content : Option (List UInt8)) (work : List Char → Outcome) :
    Outcome :=
  let announced := activity ++ " " ++ Quoted.string path ++ "...\n"
  match content.map InputLine.ofLine with
  | some (.text text) =>
    let outcome := work text.toList
    { outcome with complaints := announced ++ outcome.complaints }
  | _ => ⟨exitFile, "", announced ++ "Could not read " ++ Quoted.string path ++ "\n"⟩

/-- Carries out a command, given the contents of its file, standard input, and the clock. -/
def execute (content : Option (List UInt8)) (input : List UInt8) (now : Clock) : Command → Outcome
  | .tokenize path format => onFile "Tokenizing" path content (tokenizeText format path)
  | .parse path format => onFile "Parsing" path content (parseText format path)
  | .run path format =>
    onFile "Running" path content fun text =>
      runText format path text (InputLine.ofBytes input) now
  | .repl format => interact format (InputLine.ofBytes input) now
  | .version => ⟨0, versionText, ""⟩
  | .help => ⟨0, usageText, ""⟩

/-- The outcome for arguments that ask for no command. -/
def misused : Outcome :=
  ⟨exitUsage, "", usageText⟩

end Command

end Lox
