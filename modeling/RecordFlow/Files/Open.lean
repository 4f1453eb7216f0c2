import RecordFlow.Compression.Zstd
import RecordFlow.Error
import RecordFlow.Files.Tree
import RecordFlow.Format

/-!
# Opening files

A file is opened as an input of its decompressed content. A directory can be opened too, but reading
from it fails.
-/
namespace RecordFlow

def Compression.content : Compression → Bytes → Input
  | none, s => Input.ofBytes s
  | gzip, s => Gzip.content s
  | zstd, s => Zstd.content s

namespace Files

def Fault.error (f : Fault) : Error := .io f.message

def Fault.reading (f : Fault) : ReadFailure := ⟨false, f.message⟩

namespace Volume

def openFile (v : Volume) (path : String) (compression : Compression) : Except Error Input :=
  match v.find? path with
  | .ok (.file bytes) => .ok (compression.content bytes)
  | .ok (.directory _) => .ok (Input.ofFailure Fault.isDirectory.reading)
  | .error f => .error f.error

def readText (v : Volume) (path : String) : Except Error String :=
  match v.find? path with
  | .error f => .error f.error
  | .ok (.directory _) => .error Fault.isDirectory.error
  | .ok (.file bytes) =>
    match Utf8.toString? bytes with
    | some text => .ok text
    | .none => .error (.io ReadFailure.notText.message)

end Volume
end Files
end RecordFlow
