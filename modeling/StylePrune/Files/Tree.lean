import StylePrune.Files.Path
import StylePrune.Text.Order
import StylePrune.Text.Quoted

/-!
# Files

A file tree says which files there are and what they hold. A directory is there when it is told to
be, or when something is in it. Files hold bytes; as text they are read in UTF-8, with every line
end made a line feed, and written in UTF-8 as the text is.
-/

namespace StylePrune

inductive Entry where
  | file (bytes : ByteArray)
  | directory

/-- Files and directories by their paths. -/
structure FileTree where
  entries : List (Path × Entry)

/-- Why a file cannot be read or written. -/
inductive FileError where
  | notFound (path : Path)
  | isDirectory (path : Path)
  /-- A name on the way to the file is the name of a file. -/
  | notDirectory
  /-- A name, or all of the path, has too many bytes. -/
  | nameTooLong
  /-- The null character cannot stand in a path. -/
  | nullInName
  /-- What the file holds is not UTF-8. -/
  | undecodable
deriving DecidableEq, Repr

def FileError.message? : FileError → Option Text
  | .notFound path => some ("[Errno 2] No such file or directory: ".toList ++ path.text.quoted)
  | .isDirectory path => some ("[Errno 21] Is a directory: ".toList ++ path.text.quoted)
  | .notDirectory | .nameTooLong | .nullInName | .undecodable => none

namespace FileTree

/-- Where a walk along a path ends. -/
inductive Arrival where
  | found (path : Path) (entry : Entry)
  | missing
  /-- A file stands in the way. -/
  | blocked
  /-- A name has too many bytes to be looked up. -/
  | tooLong

/-- What stands at a path on which no two dots are left but at its start. -/
def entryAt? (t : FileTree) (p : Path) : Option Entry :=
  match t.entries.find? fun e => e.1 == p with
  | some (_, entry) => some entry
  | none =>
    if p.names.all (· == ['.', '.']) ||
        t.entries.any fun e => e.1.root == p.root && p.names.isPrefixOf e.1.names then
      some .directory
    else none

/-- Walks along names from a path on. -/
def walk (t : FileTree) (p : Path) : List Text → Arrival
  | [] =>
    match t.entryAt? p with
    | some entry => .found p entry
    | none => .missing
  | name :: names =>
    if Path.maxNameBytes < Text.byteCount name then .tooLong
    else
      match t.entryAt? (p.child name) with
      | none => .missing
      | some (.file bytes) =>
        if names.isEmpty then .found (p.child name) (.file bytes) else .blocked
      | some .directory => walk t (p.child name) names

/-- Whether there is anything under a name as it is given; a slash behind it asks for a directory.
-/
def exists? (t : FileTree) (name : Text) : Bool :=
  match name with
  | [] => false
  | name =>
    match t.walk ⟨Path.rootOf name, []⟩ (Path.splitSlashes name) with
    | .found _ _ => Text.byteCount name ≤ Path.maxBytes
    | .missing | .blocked | .tooLong => false

/-- What stands where names lead that a path begins with, and where that is. -/
def locate (t : FileTree) (path : Path) (names : List Text) : Except FileError (Path × Entry) :=
  if path.text.contains '\x00' then .error .nullInName
  else if Path.maxBytes < path.text.byteCount then .error .nameTooLong
  else
    match t.walk ⟨path.root, []⟩ names with
    | .missing => .error (.notFound path)
    | .blocked => .error .notDirectory
    | .tooLong => .error .nameTooLong
    | .found p entry => .ok (p, entry)

/-- Text with every line end made a line feed. -/
def unifyLineEnds : Text → Text
  | [] => []
  | '\r' :: '\n' :: rest => '\n' :: unifyLineEnds rest
  | c :: rest => (if c = '\r' then '\n' else c) :: unifyLineEnds rest

def decode? (bytes : ByteArray) : Option Text := (String.fromUTF8? bytes).map String.toList

def read (t : FileTree) (name : Text) : Except FileError Text :=
  let path := Path.ofText name
  match t.locate path path.names with
  | .error e => .error e
  | .ok (_, .directory) => .error (.isDirectory path)
  | .ok (_, .file bytes) =>
    match decode? bytes with
    | none => .error .undecodable
    | some text => .ok (unifyLineEnds text)

def put (t : FileTree) (path : Path) (bytes : ByteArray) : FileTree :=
  ⟨t.entries.filter (fun e => e.1 != path) ++ [(path, .file bytes)]⟩

/-- Writes a file; the directory it is in has to be there. -/
def write (t : FileTree) (name text : Text) : Except FileError FileTree :=
  let path := Path.ofText name
  match path.names.getLast? with
  | none => .error (.isDirectory path)
  | some last =>
    match t.locate path path.names.dropLast with
    | .error e => .error e
    | .ok (_, .file _) => .error .notDirectory
    | .ok (parent, .directory) =>
      if Path.maxNameBytes < Text.byteCount last then .error .nameTooLong
      else
        match t.entryAt? (parent.child last) with
        | some .directory => .error (.isDirectory path)
        | _ => .ok (t.put (parent.child last) (String.ofList text).toUTF8)

/-- The files of a tree that another tree does not have, or has with other bytes. -/
def newFiles (t old : FileTree) : List (Path × ByteArray) :=
  t.entries.filterMap fun
    | (path, .file bytes) =>
      match old.entryAt? path with
      | some (.file before) => if before == bytes then none else some (path, bytes)
      | _ => some (path, bytes)
    | (_, .directory) => none

end FileTree

end StylePrune
