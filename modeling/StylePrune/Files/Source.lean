import StylePrune.Compact.Script
import StylePrune.Files.Tree

/-!
# Sources

Stylesheets and content are given as text, or as the names of files. The texts of several files are
joined, each with a space behind it. The text of a script among content files is followed by its
compact form, in which names stand next to their quotes as they do in markup; since the text itself
stays, that can only add to the names found. Content is searched in lower case.

How scripts are compacted is a matter of its own, and may fail: then the script stands for its
compact form.
-/

namespace StylePrune

/-- Where a text comes from. -/
inductive Source where
  | text (s : Text)
  | files (names : List Text)
deriving DecidableEq, Repr

namespace Source

def scriptSuffixes : List Text :=
  [".js", ".mjs", ".cjs", ".jsx", ".ts", ".tsx"].map String.toList

def isScript (name : Text) : Bool := scriptSuffixes.contains (Path.ofText name).suffix

/-- The texts of files, each with a space behind it; with `widen`, that of a script with its compact
form. The first file that cannot be read decides. -/
def joinFilesBy (compact : Text → Option Text) (t : FileTree) (widen : Bool) :
    List Text → Except FileError Text
  | [] => .ok []
  | name :: names =>
    match t.read name with
    | .error e => .error e
    | .ok s =>
      match joinFilesBy compact t widen names with
      | .error e => .error e
      | .ok rest =>
        .ok ((if widen && isScript name then Compact.widenedBy compact s else s) ++ ' ' :: rest)

def joinFiles (t : FileTree) (widen : Bool) (names : List Text) : Except FileError Text :=
  joinFilesBy (fun s => some (Compact.script s)) t widen names

def styleText (t : FileTree) : Source → Except FileError Text
  | .text s => .ok s
  | .files names => joinFiles t false names

/-- The text of content, in lower case, when scripts are compacted in the given way. -/
def contentTextBy (compact : Text → Option Text) (t : FileTree) : Source → Except FileError Text
  | .text s => .ok s.lower
  | .files names => (joinFilesBy compact t true names).map Text.lower

def contentText (t : FileTree) (source : Source) : Except FileError Text :=
  contentTextBy (fun s => some (Compact.script s)) t source

end Source

end StylePrune
