import RecordFlow.Source.Basic

/-!
# Opening any source

A directory is read file by file. A file is read by the format that its name tells, or else by the
one that the beginning of its content suggests.
-/
namespace RecordFlow.Source

/-- A document that is read as it arrives. If reading fails before the document is known to be over
or wrong, the failure is the error. -/
def readDocument (input : Input) : Except Error Value :=
  let bytes := input.readable
  match Json.document bytes, input.failure? with
  | .ok v, none => .ok v
  | .ok _, some f => .error (.serialization f.message)
  | .error fault, none => .error (.serialization (fault.report true bytes).message)
  | .error fault, some f =>
    if fault.sawEnd then .error (.serialization f.message)
    else .error (.serialization (fault.report true bytes).message)

/-- A list gives its values as records, a mapping is the only record. -/
def ofDocument (shown : String) : Value → Except Error Source
  | .array values => .ok (items (values.map fun v => .ok (Record.ofValue v)))
  | .object fields => .ok (items [.ok (.object fields)])
  | _ => .error (.validation ("JSON input must be an array or object: " ++ shown))

def openLines (tolerance : Jsonl.Tolerance) (input : Input) : Jsonl.Reader :=
  .start tolerance (Jsonl.lines input)

/-- Files are read in portions that are never shorter than a byte order mark, except at their
end. -/
def openTable (input : Input) : Except Error Csv.Table :=
  Csv.Table.start input.readable.length input

/-- The format of an input by its first bytes, which have to be there or be all there are. Memory is
taken to hold a sample of any size. -/
def sniff (sampleSize : Nat) (input : Input) : Except Error Format :=
  let sample := input.readable.take sampleSize
  match input.failure? with
  | some f => if sample.length < sampleSize then .error (.io f.message) else .ok (.ofSample sample)
  | none => .ok (.ofSample sample)

/-- The format that a file is read by, and an entry if its content had to be looked at. -/
def formatOf (v : Files.Volume) (path : String) (sampleSize : Nat)
    (compression : Compression) : Format → Except Error Format × Log
  | .unknown =>
    match (v.openFile path compression).bind (sniff sampleSize) with
    | .ok format =>
      (.ok format, [⟨.debug, "sniffed " ++ v.shown path ++ " as " ++ format.title⟩])
    | .error e => (.error e, [])
  | known => (.ok known, [])

/-- The source of an input in a format. -/
def ofInput (shown : String) (tolerance : Jsonl.Tolerance) (format : Format) (input : Input) :
    Except Error Source :=
  match format with
  | .jsonl => .ok (lines (openLines tolerance input))
  | .json => (readDocument input).bind (ofDocument shown)
  | .csv => (openTable input).map table
  | .unknown => .error (.validation ("unknown file format: " ++ shown))

/-- Opens a file in a format. A file of unknown format is not touched. -/
def openAs (v : Files.Volume) (path : String) (tolerance : Jsonl.Tolerance)
    (format : Format) (compression : Compression) : Except Error Source :=
  if format = .unknown then ofInput (v.shown path) tolerance format []
  else (v.openFile path compression).bind (ofInput (v.shown path) tolerance format)

def openAny (v : Files.Volume) (path : String) (tolerance : Jsonl.Tolerance)
    (sampleSize : Nat) : Except Error Source × Log :=
  match JsonFiles.start v path with
  | .ok f => (.ok (files f), [])
  | .error _ =>
    let (told, compression) := Format.ofPath path
    match formatOf v path sampleSize compression told with
    | (.error e, log) => (.error e, log)
    | (.ok format, log) =>
      (openAs v path tolerance format compression,
        log ++ [⟨.debug, "reading " ++ v.shown path ++ " as " ++ format.title ++ " (" ++
          compression.title ++ ")"⟩])

end RecordFlow.Source
