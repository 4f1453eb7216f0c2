import RecordFlow.Files.Open
import RecordFlow.Digest.Sha256
import RecordFlow.Record
import RecordFlow.Sink.Basic

/-!
# Stores of one file per record

A record is stored under the digest of its identifier: sixteen directories of four digits each and a
file named for the whole digest. A record with the same identifier takes the place of an earlier
one, and a record without an identifier is skipped.
-/
namespace RecordFlow

/-- Where records find their identifier. -/
structure Store where
  idPath : Path

namespace Store

def fours : (count : Nat) → List Char → List (List Char)
  | 0, _ => []
  | _, [] => []
  | count + 1, cs => cs.take 4 :: fours count (cs.drop 4)

def directories (hex : List Char) : List String := (fours hex.length hex).map String.ofList

def fileName (hex : List Char) : String := String.ofList (hex ++ ".json".toList)

def hexOf (identifier : String) : List Char := Sha256.hex (Utf8.ofString identifier)

/-- The names that lead to the file for an identifier. -/
def place (identifier : String) : List String :=
  directories (hexOf identifier) ++ [fileName (hexOf identifier)]

def filePath (directory identifier : String) : String := Files.belowAll directory (place identifier)

/-- The identifier of a record as flat text. Null, false and nothing are no identifiers. -/
def identifier? (s : Store) (r : Record) : Option String :=
  match s.idPath.resolve r with
  | none | some .null | some (.bool false) => none
  | some v => some (Record.render v) |>.filter fun id => !id.isEmpty

/-- Stores a text for an identifier. The count says whether the file is new. -/
def put (identifier : String) (text : Bytes) (top : Files.Node) :
    Except Files.Fault Nat × Files.Node :=
  match top.createDirectories (directories (hexOf identifier)) with
  | .error f => (.error f, top)
  | .ok top =>
    let created := if top.isPresent (place identifier) then 0 else 1
    match Files.Node.write text (place identifier) top with
    | .error f => (.error f, top)
    | .ok top => (.ok created, top)

def writeRecord (s : Store) (r : Record) (top : Files.Node) :
    Except Error Outcome × Files.Node × Log :=
  match s.identifier? r with
  | none =>
    (.ok .skipped, top,
      [⟨.debug, "record without identifier at '" ++ s.idPath.text ++ "' skipped"⟩])
  | some identifier =>
    let text := Utf8.ofString (Json.compact r)
    match put identifier text top with
    | (.ok created, top) => (.ok (.written text.length created), top, [])
    | (.error f, top) => (.error f.error, top, [])

def sink (s : Store) : Sink Files.Node where
  write := s.writeRecord
  finish top := (.ok (), top)

end Store
end RecordFlow
