import Reconfig.Text.Split

/-!
# Access to files

What the command line and the loading of schemas need of a file system: the text of a file and the
names of the files in a directory. The operations run in any monad, so that a file system in
memory serves as well as that of the machine.

* `FileError`, `FileError.message`;
* `Files`: the two operations; `Files.join`, `Files.name`, `Files.stem?`: paths and names;
* `FileTree`: a file system in memory; **`FileTree.access`**: its operations.
-/

namespace Reconfig

/-- Why a file or a directory cannot be read. -/
inductive FileError where
  /-- There is nothing at the path. -/
  | notFound
  /-- A file stands where a directory has to. -/
  | notADirectory
  /-- A directory stands where a file has to. -/
  | isADirectory
  /-- The bytes are not the encoding of a text. -/
  | notText
  /-- Any other cause, in words. -/
  | other (message : String)
  deriving DecidableEq, Repr

/-- The wording of an error. -/
def FileError.message : FileError → String
  | .notFound => "No such file or directory (os error 2)"
  | .notADirectory => "Not a directory (os error 20)"
  | .isADirectory => "Is a directory (os error 21)"
  | .notText => "stream did not contain valid UTF-8"
  | .other message => message

/-- The operations of a file system, in a monad. -/
structure Files (m : Type → Type) where
  /-- The text of a file. -/
  read : String → m (Except FileError String)
  /-- The names of the files in a directory, in any order. -/
  list : String → m (Except FileError (List String))

/-- The path of a file in a directory. -/
def Files.join (directory name : String) : String :=
  if directory.isEmpty || directory.toList.getLast? == some '/' then directory ++ name
  else directory ++ "/" ++ name

/-- The name of the file at a path. -/
def Files.name (path : String) : String :=
  String.ofList ((Text.pieces '/' path.toList).getLastD [])

/-- A file's name without its ending, unless it ends otherwise or nothing remains. -/
def Files.stem? (ending name : String) : Option String :=
  let s := name.toList
  let e := ending.toList
  if e.isSuffixOf s ∧ e.length < s.length then some (String.ofList (s.take (s.length - e.length)))
  else none

/-- The ending of the names of files that hold JSON. -/
def Files.jsonEnding : String := ".json"

/-- A file system in memory. -/
inductive FileTree where
  /-- A file with its text. -/
  | file (text : String)
  /-- A directory with its entries. -/
  | directory (entries : List (String × FileTree))

namespace FileTree

/-- The directory without entries. -/
def empty : FileTree := .directory []

/-- The steps of a path. -/
def steps (path : String) : List String := (Text.pieces '/' path.toList).map String.ofList

/-- Replace the entry of a name, or add it as the last one. -/
def alter (name : String) (f : Option FileTree → FileTree) :
    List (String × FileTree) → List (String × FileTree)
  | [] => [(name, f none)]
  | (k, t) :: rest => if k = name then (k, f (some t)) :: rest else (k, t) :: alter name f rest

/-- Put a file, or a directory if there is no text, at the end of a path. -/
def put (text? : Option String) : List String → Option FileTree → FileTree
  | [], t =>
    match text?, t with
    | some text, _ => .file text
    | none, some (.directory entries) => .directory entries
    | none, _ => empty
  | name :: rest, t =>
    match t with
    | some (.directory entries) => .directory (alter name (put text? rest) entries)
    | _ => .directory [(name, put text? rest none)]

/-- The directory with the given files; a name without a text is a directory. -/
def ofEntries (entries : List (String × Option String)) : FileTree :=
  entries.foldl (fun t e => put e.2 (steps e.1) (some t)) empty

/-- Walk down from a place; `above` holds the places on the way to it, the nearest first. -/
def walk (above : List FileTree) (here : FileTree) : List String → Except FileError FileTree
  | [] => .ok here
  | name :: rest =>
    match here with
    | .file _ => .error .notADirectory
    | .directory entries =>
      if name = "" ∨ name = "." then walk above here rest
      else if name = ".." then
        match above with
        | [] => .error .notFound
        | t :: above => walk above t rest
      else
        match entries.lookup name with
        | some t => walk (here :: above) t rest
        | none => .error .notFound

/-- What stands at a path. A path from the root of the machine leads outside. -/
def at? (t : FileTree) (path : String) : Except FileError FileTree :=
  if path.isEmpty || path.toList.head? == some '/' then .error .notFound
  else walk [] t (steps path)

/-- The text of the file at a path. -/
def read (t : FileTree) (path : String) : Except FileError String :=
  match t.at? path with
  | .ok (.file text) => .ok text
  | .ok (.directory _) => .error .isADirectory
  | .error e => .error e

/-- The name of an entry that is a file. -/
def fileName? : String × FileTree → Option String
  | (name, .file _) => some name
  | (_, .directory _) => none

/-- The names of the files in the directory at a path. -/
def list (t : FileTree) (path : String) : Except FileError (List String) :=
  match t.at? path with
  | .ok (.file _) => .error .notADirectory
  | .ok (.directory entries) => .ok (entries.filterMap fileName?)
  | .error e => .error e

/-- **The operations of a file system in memory.** -/
def access (t : FileTree) : Files Id where
  read := t.read
  list := t.list

end FileTree

end Reconfig
