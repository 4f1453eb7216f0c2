import RecordFlow.Files.Name
import RecordFlow.Named
import RecordFlow.Text.Utf8

/-!
# File trees

A node is a file with its bytes or a directory with its entries in the order in which they are
listed. Nodes are named by the names that lead to them. `Volume` adds how the path of the topmost
node is written.
-/
namespace RecordFlow.Files

inductive Node where
  | file (bytes : Bytes)
  | directory (entries : List (String × Node))
deriving Inhabited

inductive Fault where
  | notFound
  | occupied
  | notDirectory
  | isDirectory
deriving DecidableEq, Repr

def Fault.message : Fault → String
  | notFound => "No such file or directory (os error 2)"
  | occupied => "File exists (os error 17)"
  | notDirectory => "Not a directory (os error 20)"
  | isDirectory => "Is a directory (os error 21)"

namespace Node

def empty : Node := directory []

def find? : List String → Node → Except Fault Node
  | [], node => .ok node
  | _ :: _, file _ => .error .notDirectory
  | name :: rest, directory entries =>
    match entries.lookup name with
    | some node => node.find? rest
    | none => .error .notFound

def isPresent (names : List String) (node : Node) : Bool :=
  match node.find? names with
  | .ok _ => true
  | .error _ => false

/-- Makes the directory and those that lead to it, as far as they are missing. -/
def createDirectories : List String → Node → Except Fault Node
  | [], directory entries => .ok (directory entries)
  | [], file _ => .error .occupied
  | _ :: _, file _ => .error .notDirectory
  | name :: rest, directory entries =>
    match createDirectories rest ((entries.lookup name).getD empty) with
    | .ok node => .ok (directory (Named.put name node entries))
    | .error f => .error f

def write (bytes : Bytes) : List String → Node → Except Fault Node
  | [], directory _ => .error .isDirectory
  | [], file _ => .ok (file bytes)
  | _ :: _, file _ => .error .notDirectory
  | name :: rest, directory entries =>
    match entries.lookup name, rest with
    | none, [] => .ok (directory (Named.put name (file bytes) entries))
    | none, _ :: _ => .error .notFound
    | some node, rest =>
      match write bytes rest node with
      | .ok node => .ok (directory (Named.put name node entries))
      | .error f => .error f

mutual

/-- The files in a node with the names that lead to them, in listing order. -/
def files : Node → List (List String × Bytes)
  | file bytes => [([], bytes)]
  | directory entries => filesIn entries

def filesIn : List (String × Node) → List (List String × Bytes)
  | [] => []
  | (name, node) :: rest =>
    (files node).map (fun (names, bytes) => (name :: names, bytes)) ++ filesIn rest

end

end Node

/-- A tree and the path text of its topmost node. -/
structure Volume where
  path : String
  top : Node

namespace Volume

def shown (v : Volume) (path : String) : String :=
  if path.isEmpty then v.path else below v.path path

def find? (v : Volume) (path : String) : Except Fault Node :=
  match v.top.find? (components path) with
  | .ok (.file bytes) => if namesDirectory path then .error .notDirectory else .ok (.file bytes)
  | outcome => outcome

end Volume

end RecordFlow.Files
