import StylePrune.Listing
import StylePrune.Run
import StylePrune.Text.ControlSequence

/-!
# The command line

The program has two commands: `purify` runs on stylesheets and content files, `inspect` lists a
stylesheet. Options and arguments mix freely, and two hyphens end the options. An argument that
names a file is looked up before the command begins.

What is printed loses its control sequences; the log keeps them, and so do files.
-/

namespace StylePrune.Command

/-- What a call of the program leaves: its exit status, what it has printed, an error that it has no
words for, and the files. -/
structure Outcome where
  exit : Nat
  stdout : Text
  stderr : Text
  failure : Option RunError
  files : FileTree

/-- Why a call is refused before its command begins. -/
inductive UsageError where
  | missingArgument (name : String)
  | missingOption (name : String)
  | missingValue (option : Text)
  | needlessValue (option : Text)
  | noSuchCommand (name : Text)
  | noSuchOption (name : Text)
  | missingCommand
  | extraArguments (arguments : List Text)
  | noSuchPath (parameter : String) (path : Text)
deriving DecidableEq, Repr

/-- Why a call ends before its command begins. -/
inductive Refusal where
  | usage (e : UsageError)
  /-- A path that cannot even be looked up. -/
  | file (e : FileError)
deriving DecidableEq, Repr

def UsageError.message : UsageError → Text
  | .missingArgument name => s!"Missing argument '{name}'.".toList
  | .missingOption name => s!"Missing option '{name}'.".toList
  | .missingValue option => "Option ".toList ++ option.quoted ++ " requires an argument.".toList
  | .needlessValue option => "Option ".toList ++ option.quoted ++ " does not take a value.".toList
  | .noSuchCommand name => "No such command ".toList ++ name.quoted ++ ['.']
  | .noSuchOption name => "No such option ".toList ++ name.quoted ++ ['.']
  | .missingCommand => "Missing command.".toList
  | .extraArguments arguments =>
    "Got unexpected extra argument".toList ++ (if arguments.length = 1 then [] else ['s']) ++
      " (".toList ++ [' '].intercalate arguments ++ [')']
  | .noSuchPath parameter path =>
    s!"Invalid value for '{parameter}': Path ".toList ++ path.quoted ++ " does not exist.".toList

structure OptionName where
  long : Text
  short : Option Char
  takesValue : Bool
deriving DecidableEq, Repr

/-- An option that is given, with its value if it takes one. -/
structure Given where
  name : Text
  value : Text
deriving DecidableEq, Repr

/-- The options and the arguments of a call, in their order. -/
structure Call where
  options : List Given
  arguments : List Text
deriving DecidableEq, Repr

def Call.withOption (name value : Text) (c : Call) : Call :=
  { c with options := ⟨name, value⟩ :: c.options }

def Call.withArgument (argument : Text) (c : Call) : Call :=
  { c with arguments := argument :: c.arguments }

/-- The options that a word of one hyphen and several letters gives. -/
def shortFlags (known : List OptionName) : Text → Except UsageError (List Given)
  | [] => .ok []
  | c :: letters =>
    match known.find? fun o => o.short == some c with
    | none => .error (.noSuchOption ['-', c])
    | some o => (shortFlags known letters).map (⟨o.long, []⟩ :: ·)

/-- A word up to its first equals sign, and what stands behind that. -/
def splitValue (word : Text) : Text × Option Text :=
  match word.dropWhile (· != '=') with
  | [] => (word, none)
  | _ :: value => (word.takeWhile (· != '='), some value)

/-- Takes a call apart. -/
def parseCall (known : List OptionName) : List Text → Except UsageError Call
  | [] => .ok ⟨[], []⟩
  | word :: words =>
    if word = ['-', '-'] then .ok ⟨[], words⟩
    else if word.head? = some '-' ∧ word ≠ ['-'] then
      match splitValue word with
      | (name, value) =>
        match known.find? fun o => o.long == name with
        | some o =>
          match o.takesValue, value, words with
          | false, none, words => (parseCall known words).map (·.withOption name [])
          | false, some _, _ => .error (.needlessValue name)
          | true, some value, words => (parseCall known words).map (·.withOption name value)
          | true, none, value :: words => (parseCall known words).map (·.withOption name value)
          | true, none, [] => .error (.missingValue name)
        | none =>
          if ['-', '-'].isPrefixOf word then .error (.noSuchOption name)
          else
            match shortFlags known (word.drop 1) with
            | .error e => .error e
            | .ok flags =>
              (parseCall known words).map fun c => { c with options := flags ++ c.options }
    else (parseCall known words).map (·.withArgument word)

def purifyOptions : List OptionName :=
  [⟨"--css".toList, none, true⟩, ⟨"--out".toList, none, true⟩, ⟨"--min".toList, none, false⟩,
    ⟨"--info".toList, none, false⟩, ⟨"--rejected".toList, none, false⟩,
    ⟨"--verbose".toList, some 'v', false⟩]

/-- The values that are given for an option. -/
def Call.values (c : Call) (name : String) : List Text :=
  (c.options.filter fun g => g.name == name.toList).map Given.value

def Call.has (c : Call) (name : String) : Bool := !(c.values name).isEmpty

/-- The first of several paths that leads nowhere is an error. -/
def checkPaths (files : FileTree) (parameter : String) : List Text → Except Refusal Unit
  | [] => .ok ()
  | path :: paths =>
    if path.contains '\x00' then .error (.file .nullInName)
    else if files.exists? path then checkPaths files parameter paths
    else .error (.usage (.noSuchPath parameter path))

/-- A call of `purify` that names files for stylesheets and for content, all of which are there. -/
structure PurifyCall where
  content : List Text
  css : List Text
  options : Options
  verbose : Bool
deriving DecidableEq, Repr

def parsePurify (files : FileTree) (words : List Text) : Except Refusal PurifyCall := do
  let call ← (parseCall purifyOptions words).mapError .usage
  let css := call.values "--css"
  checkPaths files "--css" css
  if call.arguments.isEmpty then throw (.usage (.missingArgument "CONTENT..."))
  checkPaths files "CONTENT..." call.arguments
  if css.isEmpty then throw (.usage (.missingOption "--css"))
  pure ⟨call.arguments, css,
    ⟨(call.values "--out").getLast?, call.has "--min", call.has "--info", call.has "--rejected"⟩,
    call.has "--verbose"⟩

def parseInspect (files : FileTree) (words : List Text) : Except Refusal Text := do
  let call ← (parseCall [] words).mapError .usage
  match call.arguments with
  | [] => throw (.usage (.missingArgument "CSSFILE"))
  | path :: others =>
    checkPaths files "CSSFILE" [path]
    if others.isEmpty then pure path else throw (.usage (.extraArguments others))

def joinLines (lines : List Text) : Text := lines.flatMap fun line => line ++ ['\n']

/-- The log as it is told; lines for those who ask for everything only if `verbose` is set. -/
def toldLog (verbose : Bool) (log : List LogLine) : Text :=
  joinLines (log.filterMap fun
    | .debug t => if verbose then some t else none
    | .info t => some t)

/-- What is printed about a stylesheet that cannot be read. -/
def printedError (e : ParseError) : Text :=
  Text.withoutControlSequences ("Parse error: ".toList ++ e.message ++ ['\n'])

def runPurify (files : FileTree) (call : PurifyCall) (took : Text) : Outcome :=
  let run := Run.perform files (.files call.content) (.files call.css) call.options took
  let log := toldLog call.verbose run.log
  match run.result with
  | .error (.parse e) => ⟨1, [], log ++ printedError e, none, run.files⟩
  | .error (.file e) => ⟨1, [], log, some (.file e), run.files⟩
  | .ok css =>
    ⟨0, if call.options.target?.isSome then [] else css.withoutControlSequences, log, none,
      run.files⟩

def runInspect (files : FileTree) (name : Text) : Outcome :=
  match files.read name with
  | .error e => ⟨1, [], [], some (.file e), files⟩
  | .ok css =>
    match Stylesheet.parse css with
    | .error e => ⟨1, [], printedError e, none, files⟩
    | .ok sheet =>
      let listing := joinLines (Listing.lines (Path.ofText name).name sheet)
      ⟨0, listing.withoutControlSequences, [], none, files⟩

def refused (files : FileTree) : Refusal → Outcome
  | .usage e =>
    ⟨2, [], Text.withoutControlSequences ("Error: ".toList ++ e.message ++ ['\n']), none, files⟩
  | .file e => ⟨1, [], [], some (.file e), files⟩

def versionLine : Text := "purifycss, version 0.1.0\n".toList

/-- The options that stand before a command. -/
def programOptions : List OptionName := [⟨"--version".toList, none, false⟩]

/-- The words before the name of a command, and the words from that name on. -/
def splitCommand : List Text → List Text × List Text
  | [] => ([], [])
  | word :: words =>
    if word = ['-', '-'] then ([], words)
    else if word.head? = some '-' ∧ word ≠ ['-'] then
      let (options, behind) := splitCommand words
      (word :: options, behind)
    else ([], word :: words)

/-- What the options at the start of some words come to, if no command is needed any more. -/
def answerOptions? (files : FileTree) (words : List Text) : Option Outcome :=
  match parseCall programOptions (splitCommand words).1 with
  | .error e => some (refused files (.usage e))
  | .ok ⟨_ :: _, _⟩ => some ⟨0, versionLine, [], none, files⟩
  | .ok ⟨[], _⟩ => none

/-- Runs a command on the words behind its name. A name that is none may still be an option, which
two hyphens have made the name of a command. -/
def runCommand (files : FileTree) (name : Text) (words : List Text) (took : Text) : Outcome :=
  if name = "purify".toList then
    match parsePurify files words with
    | .error e => refused files e
    | .ok call => runPurify files call took
  else if name = "inspect".toList then
    match parseInspect files words with
    | .error e => refused files e
    | .ok path => runInspect files path
  else (answerOptions? files (name :: words)).getD (refused files (.usage (.noSuchCommand name)))

/-- Runs the program on its words. Options before the command belong to the program itself. -/
def run (files : FileTree) (words : List Text) (took : Text) : Outcome :=
  if words.isEmpty then ⟨2, [], [], none, files⟩
  else
    match answerOptions? files words, (splitCommand words).2 with
    | some outcome, _ => outcome
    | none, [] => refused files (.usage .missingCommand)
    | none, name :: words => runCommand files name words took

end StylePrune.Command
