import RecordFlow.Text.Split

/-!
# File names

A path text is a row of names between slashes. Empty names and single dots count for nothing. The
last name is the file's name unless it leads up again. The extension is what follows the last dot
of a name, if something stands before that dot.
-/
namespace RecordFlow.Files

/-- The names of a path text that lead somewhere. -/
def names (path : List Char) : List (List Char) :=
  (Text.splitOn ['/'] path).filter fun name => !name.isEmpty && name != ['.']

def components (path : String) : List String := (names path.toList).map String.ofList

/-- A path text that ends in a slash or a single dot can name a directory only. -/
def namesDirectory (path : String) : Bool :=
  match (Text.splitOn ['/'] path.toList).getLast? with
  | some last => last.isEmpty || last == ['.']
  | none => false

def fileName? (path : List Char) : Option (List Char) :=
  (names path).getLast?.filter (· != ['.', '.'])

def extension? (name : List Char) : Option (List Char) :=
  let after := name.reverse.takeWhile (· != '.')
  let before := (name.reverse.dropWhile (· != '.')).drop 1
  if before.isEmpty || name == ['.', '.'] then none else some after.reverse

/-- One more name after a path text. A slash is put between them unless one is there or nothing
precedes. -/
def below (path name : String) : String :=
  if path.isEmpty || path.toList.getLast? == some '/' then path ++ name else path ++ "/" ++ name

def belowAll (path : String) (names : List String) : String := names.foldl below path

/-- Order by the first name that differs; a row comes before its continuations. -/
def precedes : List String → List String → Bool
  | [], _ => true
  | _ :: _, [] => false
  | a :: as, b :: bs => if a = b then precedes as bs else a < b

end RecordFlow.Files
