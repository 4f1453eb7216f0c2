import RecordFlow.Text.Blank
import RecordFlow.Transform.Function

/-!
# Transforms

A transform builds an output record from a source record. It reads only the source, except that
`fill` looks whether its target is already there. The children of a sequence write into the same
output. The children of a parallel all start from the output as it was before them, and their
writes are then repeated on the output in declared order with their final values.
-/
namespace RecordFlow

inductive Transform where
  | copy (target source : Path)
  | constant (target : Path) (value : Value)
  | fill (target : Path) (value : Value)
  | join (target : Path) (joiner : String) (sources : List Path)
  | split (target : Path) (splitter : String) (source : Path)
  | combine (target : Path) (sources : List Path)
  | custom (target : Path) (function : Function)
  | parallel (children : List Transform)
  | sequence (children : List Transform)

/-- The output under construction and the paths written to it, in order. -/
structure Output where
  record : Record
  written : List Path

namespace Output

def start (record : Record) : Output := ⟨record, []⟩

def write (out : Output) (path : Path) (v : Value) : Except Error Output :=
  match path.write out.record v with
  | .ok record => .ok ⟨record, out.written ++ [path]⟩
  | .error e => .error e

def writeAll (out : Output) : List (Path × Value) → Except Error Output
  | [] => .ok out
  | (path, v) :: rest =>
    match out.write path v with
    | .ok out => out.writeAll rest
    | .error e => .error e

/-- The written paths with the values they ended up with. -/
def results (branch : Output) : List (Path × Value) :=
  branch.written.map fun path => (path, (path.resolve branch.record).getD .null)

end Output

namespace Transform

def valueAt (source : Record) (path : Path) : Value := (path.resolve source).getD .null

def renderAt (source : Record) (path : Path) : String :=
  ((path.resolve source).map Record.render).getD ""

/-- A single source that is a sequence gives its items, else every source gives one part. -/
def joinParts (source : Record) (sources : List Path) : List String :=
  match sources with
  | [path] =>
    match path.resolve source with
    | some (.array items) => items.map Record.render
    | _ => [renderAt source path]
  | paths => paths.map (renderAt source)

/-- The pieces of a text, or its words when the splitter is empty. -/
def textParts (splitter text : String) : List String :=
  let parts := if splitter.isEmpty then Text.words text.toList
    else Text.splitOn splitter.toList text.toList
  parts.map String.ofList

/-- What a split writes: the parts of a nonempty text or the items of a sequence. -/
def splitParts (splitter : String) : Option Value → List Value
  | some (.string text) => if text.isEmpty then [] else (textParts splitter text).map .string
  | some (.array items) => items
  | _ => []

/-- The parts at their numbered targets, counted from one. -/
def numbered (target : Path) (parts : List Value) : List (Path × Value) :=
  parts.zipIdx.map fun (v, i) => (target.withPlaceholder (i + 1), v)

mutual

def apply (source : Record) : Transform → Output → Except Error Output
  | copy target path, out => out.write target (valueAt source path)
  | constant target v, out => out.write target v
  | fill target v, out =>
    match target.resolve out.record with
    | none | some .null => out.write target v
    | some _ => .ok out
  | join target joiner sources, out =>
    out.write target (.string (Text.joinStrings joiner (joinParts source sources)))
  | split target splitter path, out =>
    out.writeAll (numbered target (splitParts splitter (path.resolve source)))
  | combine target sources, out => out.write target (.array (sources.map (valueAt source)))
  | custom target function, out =>
    match function.run source with
    | .ok v => out.write target v
    | .error e => .error e
  | parallel children, out => applyBranches source out.record children out
  | sequence children, out => applyInOrder source children out

def applyInOrder (source : Record) : List Transform → Output → Except Error Output
  | [], out => .ok out
  | t :: rest, out =>
    match apply source t out with
    | .ok out => applyInOrder source rest out
    | .error e => .error e

/-- Runs every child on its own copy of the snapshot and repeats its writes on the output. -/
def applyBranches (source snapshot : Record) : List Transform → Output → Except Error Output
  | [], out => .ok out
  | t :: rest, out =>
    match apply source t (.start snapshot) with
    | .ok branch =>
      match out.writeAll branch.results with
      | .ok out => applyBranches source snapshot rest out
      | .error e => .error e
    | .error e => .error e

end

def evaluate (t : Transform) (source : Record) : Except Error Record :=
  match t.apply source (.start .empty) with
  | .ok out => .ok out.record
  | .error e => .error e

def tag : Transform → String
  | copy .. => "copy"
  | constant .. => "static"
  | fill .. => "fill"
  | join .. => "join"
  | split .. => "split"
  | combine .. => "combine"
  | custom .. => "custom"
  | parallel _ => "parallel"
  | sequence _ => "sequence"

end Transform
end RecordFlow
