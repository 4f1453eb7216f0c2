import RecordFlow.Filter.Expression
import RecordFlow.Transform.Basic

/-!
# The declarative form of transforms

A transform is written as an array: its tag, then its operands or its children. A list of such
arrays without a tag is a parallel. Custom functions are found in a registry by name.
-/
namespace RecordFlow.Transform

def pathOf (tag : String) (v : Value) : Except Error Path :=
  match Path.ofValue v with
  | .ok p => .ok p
  | .error e => .error (.expression ("'" ++ tag ++ "': " ++ e.text))

def pathsOf (tag : String) : List Value → Except Error (List Path)
  | [] => .ok []
  | v :: rest => do
    let p ← pathOf tag v
    let ps ← pathsOf tag rest
    pure (p :: ps)

def stringOf (tag what : String) : Value → Except Error String
  | .string s => .ok s
  | other => .error (.expression ("'" ++ tag ++ "' requires string " ++ what ++ ", got " ++
      Json.compact other))

def atLeast (tag : String) (least actual : Nat) : Error :=
  .expression ("'" ++ tag ++ "' expects at least " ++ toString least ++ " operands, got " ++
    toString actual)

def leafOf (registry : Registry) (tag : String) (operands : List Value) :
    Except Error Transform :=
  if tag = "copy" then
    match operands with
    | [target, source] => do
      let target ← pathOf tag target
      let source ← pathOf tag source
      pure (copy target source)
    | _ => .error (.arity tag 2 operands.length)
  else if tag = "static" then
    match operands with
    | [target, v] => do
      let target ← pathOf tag target
      pure (constant target v)
    | _ => .error (.arity tag 2 operands.length)
  else if tag = "fill" then
    match operands with
    | [target, v] => do
      let target ← pathOf tag target
      pure (fill target v)
    | _ => .error (.arity tag 2 operands.length)
  else if tag = "join" then
    match operands with
    | target :: joiner :: first :: rest => do
      let target ← pathOf tag target
      let joiner ← stringOf tag "joiner" joiner
      let sources ← pathsOf tag (first :: rest)
      pure (join target joiner sources)
    | _ => .error (atLeast tag 3 operands.length)
  else if tag = "split" then
    match operands with
    | [target, splitter, source] => do
      let target ← pathOf tag target
      let splitter ← stringOf tag "splitter" splitter
      let source ← pathOf tag source
      pure (split target splitter source)
    | _ => .error (.arity tag 3 operands.length)
  else if tag = "combine" then
    match operands with
    | target :: first :: rest => do
      let target ← pathOf tag target
      let sources ← pathsOf tag (first :: rest)
      pure (combine target sources)
    | _ => .error (atLeast tag 2 operands.length)
  else if tag = "custom" then
    match operands with
    | [target, name] => do
      let name ← stringOf tag "function name" name
      let target ← pathOf tag target
      let function ← registry.get name
      pure (custom target function)
    | _ => .error (.arity tag 2 operands.length)
  else .error (.expression ("unknown transform tag '" ++ tag ++ "'"))

mutual

def ofValue (registry : Registry) : Value → Except Error Transform
  | .array [] => .error (.expression "transform expression may not be empty")
  | .array (.array first :: rest) => (ofValues registry (.array first :: rest)).map parallel
  | .array (.string tag :: operands) =>
    if tag = "parallel" then (ofValues registry operands).map parallel
    else if tag = "sequence" then (ofValues registry operands).map sequence
    else leafOf registry tag operands
  | .array (other :: _) =>
    .error (.expression ("transform tag must be a string, got " ++ Json.compact other))
  | other =>
    .error (.expression ("transform expression must be a tagged array, got " ++
      Json.compact other))

def ofValues (registry : Registry) : List Value → Except Error (List Transform)
  | [] => .ok []
  | v :: rest => do
    let t ← ofValue registry v
    let ts ← ofValues registry rest
    pure (t :: ts)

end

mutual

def toValue : Transform → Value
  | copy target source => .array [.string "copy", target.toValue, source.toValue]
  | constant target v => .array [.string "static", target.toValue, v]
  | fill target v => .array [.string "fill", target.toValue, v]
  | join target joiner sources =>
    .array (.string "join" :: target.toValue :: .string joiner :: sources.map Path.toValue)
  | split target splitter source =>
    .array [.string "split", target.toValue, .string splitter, source.toValue]
  | combine target sources =>
    .array (.string "combine" :: target.toValue :: sources.map Path.toValue)
  | custom target function => .array [.string "custom", target.toValue, .string function.name]
  | parallel children => .array (.string "parallel" :: toValues children)
  | sequence children => .array (.string "sequence" :: toValues children)

def toValues : List Transform → List Value
  | [] => []
  | t :: rest => toValue t :: toValues rest

end

def parse (registry : Registry) (text : String) : Except Error Transform :=
  match Json.parse text with
  | .ok v => ofValue registry v
  | .error e => .error (.serialization e.message)

end RecordFlow.Transform
