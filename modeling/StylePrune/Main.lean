import StylePrune.Command

/-!
# The program

Reads the files that the command line names, runs the command on them, and writes what it leaves:
changed files, output, and errors.
-/

namespace StylePrune

/-- The error number with which the reading of a directory fails. -/
def directoryErrorNumber : UInt32 := 21

/-- What stands under a name. -/
def probe (name : String) : IO (Option Entry) := do
  try
    let bytes ← IO.FS.readBinFile name
    return some (.file bytes)
  catch
    | .inappropriateType _ number _ =>
      return if number == directoryErrorNumber then some .directory else none
    | _ => return none

/-- Everything that words of a command line may name: files, and the directories they are in. -/
def gather (words : List String) : IO FileTree := do
  let mut entries : List (Path × Entry) := []
  for word in words do
    -- an option may have its value behind an equals sign
    let value := (Command.splitValue word.toList).2.getD word.toList
    for text in [word.toList, value] do
      let path := Path.ofText text
      for p in [path, ⟨path.root, path.names.dropLast⟩] do
        if entries.all fun e => e.1 != p then
          if let some entry ← probe (String.ofList p.text) then
            entries := entries ++ [(p, entry)]
  return ⟨entries⟩

/-- What is printed about an error that the command has no words for. -/
def failureLine : RunError → String
  | .parse e => String.ofList e.message
  | .file e => String.ofList (e.message?.getD "A file cannot be read or written.".toList)

end StylePrune

open StylePrune in
/-- Runs the program. -/
def main (args : List String) : IO UInt32 := do
  let files ← gather args
  let words := args.map String.toList
  let start ← IO.monoMsNow
  -- a first run tells the time that the second one reports
  let trial ← IO.lazyPure fun _ => Command.run files words []
  let took := (← IO.monoMsNow) - start
  let outcome := Command.run files words (Nat.toDigits 10 took)
  for (path, bytes) in outcome.files.newFiles files do
    IO.FS.writeBinFile (String.ofList path.text) bytes
  IO.print (String.ofList outcome.stdout)
  IO.eprint (String.ofList outcome.stderr)
  if let some e := outcome.failure then
    IO.eprintln (failureLine e)
  return trial.exit.toUInt32
