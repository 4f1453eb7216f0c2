import RecordFlow.Input

/-!
# Lines of an input

A line ends with a line feed, which a carriage return may precede; the last line may lack its end.
A line whose bytes are no text is reported in its place. A failure of the input loses what had been
read of the line at hand.
-/
namespace RecordFlow.Jsonl

abbrev Line := Except ReadFailure String

def decodeLine (bytes : Bytes) : Line :=
  match Utf8.toString? bytes with
  | some text => .ok text
  | none => .error .notText

/-- A line read in reverse, ended by a line feed. -/
def endedLine : Bytes → Line
  | 0x0D :: reversed => decodeLine reversed.reverse
  | reversed => decodeLine reversed.reverse

/-- The lines of an input after the bytes `reversed` of the first one. -/
def linesAfter (reversed : Bytes) : Input → List Line
  | [] => if reversed.isEmpty then [] else [decodeLine reversed.reverse]
  | .error f :: rest => .error f :: linesAfter [] rest
  | .ok b :: rest =>
    if b = 0x0A then endedLine reversed :: linesAfter [] rest
    else linesAfter (b :: reversed) rest

def lines (input : Input) : List Line := linesAfter [] input

end RecordFlow.Jsonl
