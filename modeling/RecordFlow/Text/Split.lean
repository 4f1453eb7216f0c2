/-!
# Searching and splitting text

A separator is found from the left and its occurrences do not overlap.
-/
namespace RecordFlow.Text

/-- Puts `c` in front of the first piece. -/
def onFirst (c : Char) : List (List Char) → List (List Char)
  | [] => [[c]]
  | piece :: rest => (c :: piece) :: rest

/-- Splits at `separator`, first dropping `skip` characters of an occurrence already found. -/
def splitFrom (separator : List Char) : Nat → List Char → List (List Char)
  | _, [] => [[]]
  | skip + 1, _ :: rest => splitFrom separator skip rest
  | 0, c :: rest =>
    if separator.isPrefixOf (c :: rest) then
      [] :: splitFrom separator (separator.length - 1) rest
    else onFirst c (splitFrom separator 0 rest)

/-- The pieces between the occurrences of a nonempty separator; one more than there are
occurrences. -/
def splitOn (separator text : List Char) : List (List Char) := splitFrom separator 0 text

def join (separator : List Char) (pieces : List (List Char)) : List Char :=
  separator.intercalate pieces

def replace (old new text : List Char) : List Char := join new (splitOn old text)

def occursIn (part : List Char) : List Char → Bool
  | [] => part.isEmpty
  | c :: rest => part.isPrefixOf (c :: rest) || occursIn part rest

def dropEnding? (ending text : List Char) : Option (List Char) :=
  if ending.isSuffixOf text then some (text.take (text.length - ending.length)) else none

def joinStrings (separator : String) (pieces : List String) : String :=
  String.ofList (join separator.toList (pieces.map String.toList))

end RecordFlow.Text
