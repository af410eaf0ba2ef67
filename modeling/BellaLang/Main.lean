import BellaLang.CommandLine.Session

/-!
The command `bella`.

What happens is decided by `CommandLine.session`; here it gets its arguments and its file, and what
it writes goes to the standard streams.
-/

namespace BellaLang.CommandLine

/-- An error of the system.  Some of its layers count errors downwards from zero and do not begin
    their texts with a capital. -/
def SystemFault.ofCode (path : String) (code : UInt32) (text : String) : SystemFault :=
  ⟨code.toInt32.toInt.natAbs, text.capitalize, some path⟩

/-- The number, the text and the file name of an error of the system. -/
def systemFault (path : String) (fault : IO.Error) : SystemFault :=
  match fault with
  | .alreadyExists _ code text | .invalidArgument _ code text | .permissionDenied _ code text
  | .resourceExhausted _ code text | .inappropriateType _ code text | .noSuchThing _ code text
  | .interrupted _ code text | .noFileOrDirectory _ code text | .otherError code text
  | .resourceBusy code text | .resourceVanished code text | .unsupportedOperation code text
  | .hardwareFault code text | .unsatisfiedConstraints code text | .illegalOperation code text
  | .protocolError code text | .timeExpired code text => .ofCode path code text
  | .unexpectedEof => ⟨5, "Input/output error", some path⟩
  | .userError text => ⟨5, text, some path⟩

/-- Read a file. -/
def readFile (path : String) : IO FileReading := do
  if path.contains '\x00' then return .impossibleName
  try
    return .bytes (← IO.FS.readBinFile path).toList
  catch fault =>
    match fault with
    | .noFileOrDirectory .. => return .missing
    | _ => return .broken (systemFault path fault)

/-- Take the numbers for an outburst from chance. -/
def randomPicks : IO Picks := do
  let numbers ← (List.range 3).mapM fun _ => IO.rand 0 100000
  return .cycle numbers

end BellaLang.CommandLine

open BellaLang BellaLang.CommandLine in
/-- The command. -/
def main (args : List String) : IO UInt32 := do
  let picks ← randomPicks
  let folder := (← IO.currentDir).toString
  let transcript ← match opening folder args with
    | .over transcript => pure transcript
    | .wants name path check verbose =>
      pure (processFile .standard name path check verbose (← readFile path) picks)
  IO.print transcript.out
  IO.eprint transcript.err
  if let some remark := transcript.ending.remark then IO.eprintln ("bella: " ++ remark)
  return transcript.ending.code.toUInt32
