import BellaLang.CommandLine.Arguments
import BellaLang.Machine.Execution
import BellaLang.Report.Reading
import BellaLang.Text.Encoded

/-!
A session on the command line, from the arguments to everything that is written.

The arguments either settle the session by themselves (there are none, help is wanted, or they make
no sense) or ask for a file.  What came of reading the file is handed in, and from there on the
session is a function: the lines that the program printed go to the one output, everything that is
said about it to the other, and the ending tells whether all went well.
-/

namespace BellaLang.CommandLine

/-! ## Fixed texts -/

/-- How the command is used. -/
def usage : String := "usage: bella [-h] [-c] [-v] program\n"

/-- The help text. -/
def helpText : String :=
  usage ++ "\n" ++
  "Interpreter for the Bella programming language.\n\n" ++
  "positional arguments:\n" ++
  "  program        path to a Bella program, such as examples/gcd.bella\n\n" ++
  "options:\n" ++
  "  -h, --help     show this help message and exit\n" ++
  "  -c, --check    Parse the program but do not actually execute it.\n" ++
  "  -v, --verbose  Say what is going on, on the standard error stream.\n"

/-- What is written when there are no arguments. -/
def introduction : String :=
  "This is an interpreter for the Bella programming language.\n\n" ++ usage ++ "\n\n" ++
  "For example:\n\n" ++
  "    bella program.bella\n\n" ++
  "will run program.bella if possible, or else try to explain why not.\n\n" ++
  "    bella -h\n\n" ++
  "will explain all the arguments.\n"

/-! ## Paths -/

/-- The parts of a path; empty parts and single dots do not count. -/
def pathParts (path : String) : List String :=
  (path.splitOn "/").filter fun part => part != "" && part != "."

/-- The root that a path begins with; two slashes are a root of their own, more are like one. -/
def pathRoot (path : String) : String :=
  match path.toList with
  | '/' :: '/' :: '/' :: _ => "/"
  | '/' :: '/' :: _ => "//"
  | '/' :: _ => "/"
  | _ => ""

/-- The path of `path` as seen from a folder. -/
def pathFrom (folder path : String) : String :=
  if pathRoot path = "" then
    pathRoot folder ++ "/".intercalate (pathParts folder ++ pathParts path)
  else pathRoot path ++ "/".intercalate (pathParts path)

/-! ## Files -/

/-- What the system says when a file cannot be read. -/
structure SystemFault where
  number : Int
  text : String
  file : Option String

/-- The fault in words. -/
def SystemFault.message (fault : SystemFault) : String :=
  "[Errno " ++ toString fault.number ++ "] " ++ fault.text ++
    match fault.file with
    | some file => ": " ++ Text.quoted file
    | none => ""

/-- What came of reading a file. -/
inductive FileReading where
  | bytes (content : List UInt8)
  | missing
  | broken (fault : SystemFault)
  /-- There can be no file of that name. -/
  | impossibleName

/-! ## Sessions -/

/-- How a session ends. -/
inductive Ending where
  /-- By coming to its end, with a status that is zero if all went well. -/
  | status (code : Nat)
  /-- By being cut short over the arguments. -/
  | exit (code : Nat)
  /-- Because the bytes of the file are no text. -/
  | undecodable (fault : Text.EncodingFault)
  /-- Because there can be no file of that name. -/
  | impossibleName
  /-- Because the program failed in a call with a value that nests too deep to be shown. -/
  | untellable
  /-- Because the program stopped for a reason that is not its own. -/
  | aborted (stop : Stop)

/-- Everything that a session writes, and how it ends. -/
structure Transcript where
  out : String
  err : String
  ending : Ending

/-- Lines, each with its end. -/
def linesText (lines : List String) : String := String.join (lines.map (· ++ "\n"))

/-- The ending of a session with an issue. -/
def complain (out err : String) (report : Report) (index : SourceIndex) (picks : Picks) :
    Transcript :=
  ⟨out, err ++ (report.complaint index picks).1, .status 1⟩

/-- Run a program within limits, and tell what came of it.  What is written is what the listener
    gets while the program runs.  A failure is told with the calls that it left, and these may be
    beyond telling. -/
def runProgram (limits : Limits) (name : String) (program : Program) (report : Report)
    (index : SourceIndex) (err : String) (picks : Picks) : Transcript :=
  let err := err ++ report.info ["Running", name]
  let (result, machine) := program.runWithin limits (Machine.new .fresh)
  let out := linesText machine.echoed.toList
  let site := machine.atWork.bind Stmt.site
  match result with
  | .ok () =>
    ⟨out, err ++ report.info ["Printed " ++ toString machine.output.size ++ " line(s)."], .status 0⟩
  | .error (.failure failure) =>
    if failure.isShowable limits.nesting then
      complain out err (report.add (.runtimeError failure site)) index picks
    else ⟨out, err, .untellable⟩
  | .error .tooDeep => complain out err (report.add (.tooDeep site)) index picks
  | .error stop => ⟨out, err, .aborted stop⟩

/-- Go on with the text of a file. -/
def processText (limits : Limits) (name path text : String) (check : Bool) (report : Report)
    (picks : Picks) : Transcript :=
  let err := report.info ["Parsing", path]
  match report.readText .empty path text with
  | (none, report, index) => complain "" err report index picks
  | (some program, report, index) =>
    if check then ⟨"", err ++ "Looks plausible to me.\n", .status 0⟩
    else runProgram limits name program report index err picks

/-- Go on with what came of reading a file. -/
def processFile (limits : Limits) (name path : String) (check verbose : Bool)
    (reading : FileReading) (picks : Picks) : Transcript :=
  let report := Report.new verbose
  match reading with
  | .impossibleName => ⟨"", "", .impossibleName⟩
  | .missing => complain "" "" (report.add (.noSuchFile path)) .empty picks
  | .broken fault => complain "" "" (report.add (.brokenFile path fault.message)) .empty picks
  | .bytes content =>
    match Text.ofFile content with
    | .error fault => ⟨"", "", .undecodable fault⟩
    | .ok text => processText limits name path text check report picks

/-- What a session does first. -/
inductive Opening where
  /-- It is over already. -/
  | over (transcript : Transcript)
  /-- It wants to read a file. -/
  | wants (name path : String) (check verbose : Bool)

/-- The opening of a session with these arguments in a folder. -/
def opening (folder : String) (args : List String) : Opening :=
  if args.isEmpty then .over ⟨introduction, "", .status 0⟩
  else match wish args with
    | .help => .over ⟨helpText, "", .exit 0⟩
    | .misuse message => .over ⟨"", usage ++ "bella: error: " ++ message ++ "\n", .exit 2⟩
    | .run name check verbose => .wants name (pathFrom folder name) check verbose

/-- A whole session within limits, where `read` tells what comes of reading a file. -/
def session (limits : Limits) (folder : String) (args : List String)
    (read : String → FileReading) (picks : Picks) : Transcript :=
  match opening folder args with
  | .over transcript => transcript
  | .wants name path check verbose => processFile limits name path check verbose (read path) picks

/-- The code with which the process ends. -/
def Ending.code : Ending → Nat
  | .status code | .exit code => code
  | .undecodable _ | .impossibleName | .untellable | .aborted _ => 1

/-- Why a session was cut short, if that has to be said. -/
def Ending.remark : Ending → Option String
  | .undecodable fault => some fault.message
  | .impossibleName => some "embedded null byte"
  | .untellable => some "the program failed, and its calls nest too deep to be told"
  | .aborted _ => some "the program was given up"
  | .status _ | .exit _ => none

end BellaLang.CommandLine
