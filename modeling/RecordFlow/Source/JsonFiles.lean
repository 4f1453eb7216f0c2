import RecordFlow.Files.Open
import RecordFlow.Stream.Stage

/-!
# Directories of JSON files

Every file below a directory whose extension is `json` gives one record. The files come in the order
of their names, compared one after another from the outside in, whatever the order in which
directories list them. A file that cannot be read gives an error in its place.
-/
namespace RecordFlow

/-- Files to be read: the path of the directory, and the names and bytes of each. -/
structure JsonFiles where
  path : String
  files : List (List String × Bytes)

namespace JsonFiles

def isJson (names : List String) : Bool :=
  match names.getLast? with
  | some name => Files.extension? name.toList == some "json".toList
  | none => false

def sorted (node : Files.Node) : List (List String × Bytes) :=
  (node.files.filter fun f => isJson f.1).mergeSort fun f g => Files.precedes f.1 g.1

def start (v : Files.Volume) (path : String) : Except Error JsonFiles :=
  match v.find? path with
  | .ok (.directory entries) => .ok ⟨v.shown path, sorted (.directory entries)⟩
  | _ => .error (.validation ("not a directory: " ++ v.shown path))

def remaining (f : JsonFiles) : Nat := f.files.length

def readFile (path : String) (file : List String × Bytes) : Item :=
  match Utf8.toString? file.2 with
  | none => .error (.io ReadFailure.notText.message)
  | some text =>
    match Json.parse text with
    | .ok v => .ok v
    | .error e =>
      .error (.serialization (Files.belowAll path file.1 ++ ": " ++ e.message))

/-- The files that the system does not let be read, and what it says of each. -/
abbrev Denials := List String → Option String

/-- What a file gives if it may be denied. -/
def readUnder (denied : Denials) (path : String) (file : List String × Bytes) : Item :=
  match denied file.1 with
  | some message => .error (.io message)
  | none => readFile path file

def nextUnder (denied : Denials) (f : JsonFiles) : Option Item × JsonFiles :=
  match f.files with
  | [] => (none, f)
  | file :: rest => (some (readUnder denied f.path file), { f with files := rest })

/-- The next item where no file is denied. -/
def next (f : JsonFiles) : Option Item × JsonFiles := f.nextUnder fun _ => none

end JsonFiles
end RecordFlow
