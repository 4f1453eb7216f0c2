import RecordFlow.Files.Name
import RecordFlow.Json.Reader
import RecordFlow.Text.Blank
import RecordFlow.Json.Shape

/-!
# Formats of record files

The format and the compression of a file show in its name: first a compression suffix is taken off,
then the extension decides. Where the name says nothing the beginning of the content is looked at.
-/
namespace RecordFlow

inductive Format where
  | jsonl
  | json
  | csv
  | unknown
deriving DecidableEq, Repr

inductive Compression where
  | none
  | gzip
  | zstd
deriving DecidableEq, Repr

namespace Format

def name : Format → String
  | jsonl => "jsonl"
  | json => "json"
  | csv => "csv"
  | unknown => "unknown"

def title : Format → String
  | jsonl => "Jsonl"
  | json => "Json"
  | csv => "Csv"
  | unknown => "Unknown"

def all : List Format := [jsonl, json, csv, unknown]

def ofName? (name : String) : Option Format := all.find? (·.name == name)

def ofExtension (extension : List Char) : Format :=
  if extension = "jsonl".toList || extension = "ndjson".toList then jsonl
  else if extension = "json".toList then json
  else if extension = "csv".toList then csv
  else unknown

def shape : Json.Shape Format := fun s =>
  (Json.Shape.name (all.map name) s).map fun (n, rest) => ((ofName? n).getD unknown, rest)

end Format

namespace Compression

def name : Compression → String
  | none => "none"
  | gzip => "gzip"
  | zstd => "zstd"

def title : Compression → String
  | none => "None"
  | gzip => "Gzip"
  | zstd => "Zstd"

def all : List Compression := [none, gzip, zstd]

def ofName? (name : String) : Option Compression := all.find? (·.name == name)

/-- Takes a compression suffix off a name. -/
def splitName (name : List Char) : List Char × Compression :=
  match Text.dropEnding? ".gz".toList name with
  | some stem => (stem, gzip)
  | .none =>
    match Text.dropEnding? ".zst".toList name with
    | some stem => (stem, zstd)
    | .none =>
      match Text.dropEnding? ".zstd".toList name with
      | some stem => (stem, zstd)
      | .none => (name, none)

def shape : Json.Shape Compression := fun s =>
  (Json.Shape.name (all.map name) s).map fun (n, rest) => ((ofName? n).getD none, rest)

end Compression

namespace Format

/-- Format and compression by the file's name. Letters count without their case; the suffixes hold
only ASCII letters, which no other letter turns into. -/
def ofPath (path : String) : Format × Compression :=
  let name := ((Files.fileName? path.toList).getD []).map Char.toLower
  let (stem, compression) := Compression.splitName name
  (((Files.extension? stem).map ofExtension).getD unknown, compression)

def linesOf (text : List Char) : List (List Char) :=
  (Text.splitOn ['\n'] text).map fun line =>
    (Text.dropEnding? ['\r'] line).getD line

def isDocument (line : List Char) : Bool :=
  match Json.parse (String.ofList line) with
  | .ok _ => true
  | .error _ => false

/-- The format of a content that begins with `sample`. A mapping that ends with its line and is
followed by another line begins a file of lines. -/
def ofSample (sample : Bytes) : Format :=
  let text := Text.trim (Utf8.lossy sample)
  match text with
  | [] => unknown
  | '[' :: _ => json
  | '\x7b' :: _ =>
    match (linesOf text).filter fun line => !(Text.trim line).isEmpty with
    | first :: _ :: _ => if isDocument first then jsonl else json
    | _ => json
  | _ => if text.contains ',' then csv else unknown

def defaultSampleSize : Nat := 8192

def ofContent (sampleSize : Nat) (content : Bytes) : Format := ofSample (content.take sampleSize)

end Format
end RecordFlow
