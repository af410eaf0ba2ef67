import BellaLang.Text.Quoted

/-!
The arguments of the command line.

There are three options and one program.  Options have a short and a long name; short ones can be
run together behind one dash, long ones can be cut short as long as no other option could be meant,
and none of them takes a value, so a value given with `=` is refused.  Two dashes alone end the
options.  What looks like a negative number, or has a blank in it, is no option.

  1. Every argument is sorted: option, unknown option, separator, or plain.
  2. From left to right, options take effect and the first plain argument is the program.
  3. A missing program is reported before arguments that nobody asked for.
-/

namespace BellaLang.CommandLine

/-! ## Options -/

/-- The options. -/
inductive Flag where
  | help
  | check
  | verbose
deriving DecidableEq, Repr

/-- The options in the order of the help text. -/
def Flag.all : List Flag := [.help, .check, .verbose]

/-- The short name. -/
def Flag.short : Flag → String
  | .help => "-h"
  | .check => "-c"
  | .verbose => "-v"

/-- The long name. -/
def Flag.long : Flag → String
  | .help => "--help"
  | .check => "--check"
  | .verbose => "--verbose"

/-- The option with a short name. -/
def Flag.ofShort? (name : String) : Option Flag := Flag.all.find? fun flag => flag.short == name

/-- The option with exactly this name, short or long, and whether it is the short one. -/
def Flag.ofName? (name : String) : Option (Flag × Bool) :=
  match Flag.ofShort? name with
  | some flag => some (flag, true)
  | none => (Flag.all.find? fun flag => flag.long == name).map fun flag => (flag, false)

/-- What is said when an option is given a value. -/
def Flag.refuse (flag : Flag) (value : String) : String :=
  "argument " ++ flag.short ++ "/" ++ flag.long ++ ": ignored explicit argument " ++
    Text.quoted value

/-! ## Sorting arguments -/

/-- What an argument is. -/
inductive Argument where
  | plain
  | separator
  /-- An option by its short or its long name, perhaps with something attached. -/
  | option (flag : Flag) (isShort : Bool) (attached : Option String)
  | unknown

/-- The parts of an argument before and after its first `=`, if it has one. -/
def splitAtEquals (arg : List Char) : Option (List Char × List Char) :=
  if arg.contains '=' then
    some (arg.takeWhile (· != '='), (arg.dropWhile (· != '=')).drop 1)
  else none

/-- The characters without a line feed at their end. -/
def dropFinalBreak (arg : List Char) : List Char :=
  if arg.getLast? = some '\n' then arg.dropLast else arg

/-- Is this the size of a number: digits, with or without a fraction, or a fraction alone? -/
def isNumberSize (arg : List Char) : Bool :=
  match arg.dropWhile Text.isDigit with
  | [] => !arg.isEmpty
  | '.' :: fraction => !fraction.isEmpty && fraction.all Text.isDigit
  | _ => false

/-- Does this look like a negative number?  A line feed at the end does not count. -/
def isNegativeNumber : List Char → Bool
  | '-' :: rest => isNumberSize (dropFinalBreak rest)
  | _ => false

/-- The options that the beginning of a long name could mean. -/
def longCandidates (beginning : List Char) : List Flag :=
  Flag.all.filter fun flag => beginning.isPrefixOf flag.long.toList

/-- Sort an argument that begins with a dash and is not the whole name of an option. -/
def sortDashed (arg : List Char) : Except String Argument :=
  let split := splitAtEquals arg
  let attached := split.map fun parts => String.ofList parts.2
  let named := split.bind fun parts => Flag.ofName? (String.ofList parts.1)
  let fallback : Argument :=
    if isNegativeNumber arg || arg.contains ' ' then .plain else .unknown
  match named with
  | some (flag, isShort) => .ok (.option flag isShort attached)
  | none =>
    match arg with
    | '-' :: '-' :: _ =>
      match longCandidates ((split.map (·.1)).getD arg) with
      | [] => .ok fallback
      | [flag] => .ok (.option flag false attached)
      | several =>
        .error ("ambiguous option: " ++ String.ofList arg ++ " could match " ++
          ", ".intercalate (several.map Flag.long))
    | _ =>
      match Flag.ofShort? (String.ofList (arg.take 2)) with
      | some flag => .ok (.option flag true (some (String.ofList (arg.drop 2))))
      | none => .ok fallback

/-- Sort an argument in front of the separator. -/
def sortArgument (arg : String) : Except String Argument :=
  match arg.toList with
  | '-' :: rest =>
    match Flag.ofName? arg with
    | some (flag, isShort) => .ok (.option flag isShort none)
    | none => if rest.isEmpty then .ok .plain else sortDashed ('-' :: rest)
  | _ => .ok .plain

/-- Sort all arguments. -/
def sortArguments : List String → Except String (List (String × Argument))
  | [] => .ok []
  | arg :: rest =>
    if arg = "--" then .ok ((arg, .separator) :: rest.map fun after => (after, .plain))
    else do
      let sorted ← sortArgument arg
      let others ← sortArguments rest
      pure ((arg, sorted) :: others)

/-! ## Taking arguments -/

/-- What has been asked for so far. -/
structure Request where
  program : Option String
  check : Bool
  verbose : Bool
  /-- Arguments that nobody asked for. -/
  extras : List String

/-- What the arguments come to. -/
inductive Wish where
  | run (program : String) (check verbose : Bool)
  | help
  | misuse (message : String)

/-- An option takes effect. -/
def Request.take (request : Request) : Flag → Request
  | .help => request
  | .check => { request with check := true }
  | .verbose => { request with verbose := true }

/-- The options that an option with something attached to it stands for: behind a short name there
    may be more short names, and nothing else may be attached. -/
def expand (flag : Flag) : List Char → Except String (List Flag)
  | [] => .ok [flag]
  | c :: rest =>
    match Flag.ofShort? (String.ofList ['-', c]) with
    | some next => (expand next rest).map (flag :: ·)
    | none => .error (flag.refuse (String.ofList (c :: rest)))

/-- All options that an argument stands for. -/
def optionsOf (flag : Flag) (isShort : Bool) (attached : Option String) :
    Except String (List Flag) :=
  match attached with
  | none => .ok [flag]
  | some value =>
    if isShort ∧ value ≠ "" then expand flag value.toList else .error (flag.refuse value)

/-- The arguments without a separator in front. -/
def skipSeparator : List (String × Argument) → List (String × Argument)
  | (_, .separator) :: rest => rest
  | args => args

theorem skipSeparator_length_le (args : List (String × Argument)) :
    (skipSeparator args).length ≤ args.length := by
  unfold skipSeparator
  split <;> simp

/-- What is wished for when all arguments have been taken. -/
def Request.settle (request : Request) : Wish :=
  match request.program with
  | none => .misuse "the following arguments are required: program"
  | some program =>
    if request.extras.isEmpty then .run program request.check request.verbose
    else .misuse ("unrecognized arguments: " ++ " ".intercalate request.extras)

/-- Nobody asked for this argument. -/
def Request.leaveOver (request : Request) (arg : String) : Request :=
  { request with extras := request.extras ++ [arg] }

/-- Take sorted arguments from left to right.  A separator belongs to the program before or behind
    it; any other one is left over. -/
def takeAll (request : Request) (args : List (String × Argument)) : Wish :=
  match args with
  | [] => request.settle
  | (_, .option flag isShort attached) :: rest =>
    match optionsOf flag isShort attached with
    | .error message => .misuse message
    | .ok flags =>
      if flags.contains .help then .help else takeAll (flags.foldl Request.take request) rest
  | (arg, .unknown) :: rest => takeAll (request.leaveOver arg) rest
  | (arg, .plain) :: rest =>
    if request.program.isSome then takeAll (request.leaveOver arg) rest
    else takeAll { request with program := some arg } (skipSeparator rest)
  | (arg, .separator) :: rest =>
    takeAll (if request.program.isSome then request.leaveOver arg else request) rest
termination_by args.length
decreasing_by
  all_goals simp only [List.length_cons]
  all_goals have := skipSeparator_length_le rest
  all_goals omega

/-- What a list of arguments comes to. -/
def wish (args : List String) : Wish :=
  match sortArguments args with
  | .error message => .misuse message
  | .ok sorted => takeAll ⟨none, false, false, []⟩ sorted

end BellaLang.CommandLine
