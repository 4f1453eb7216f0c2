import RecordFlow.Error
import RecordFlow.Json.Shape

/-!
# Reading stored errors

The stored form of an error is read straight from its text: a mapping from the kind to the message,
or to a structure that holds the message and the label of the kind.
-/
namespace RecordFlow.Error

open Json (Shape Failure)

structure Draft where
  label : Option String
  message : Option String

namespace Draft

def messageField : Shape.Field Draft where
  name := "message"
  required := true
  isSet d := d.message.isSome
  read d s := (Shape.string s).map fun (text, rest) => ({ d with message := some text }, rest)

def labelField (name : String) : Shape.Field Draft where
  name := name
  required := true
  isSet d := d.label.isSome
  read d s := (Shape.string s).map fun (text, rest) => ({ d with label := some text }, rest)

end Draft

def withTexts (e : Error) (label message : String) : Error :=
  (ofKind? label message e.kind).getD e

/-- How a kind name without texts is refused. -/
def bareName (blank : Error) : Failure :=
  ⟨.wrongKind "unit variant" (if blank.isBare then "newtype variant" else "struct variant"), [],
    .nowhere⟩

/-- The texts after the kind. `family` is the name that messages give to the kinds together. -/
def content (family : String) (blank : Error) : Shape Error := fun s =>
  if blank.isBare then (Shape.string s).map fun (text, rest) => (blank.withTexts "" text, rest)
  else
    let fields := (blank.label?.map fun (key, _) => Draft.labelField key).toList ++
      [Draft.messageField]
    (Shape.structured ("struct variant " ++ family ++ "::" ++ blank.kind) fields ⟨none, none⟩ s).map
      fun (draft, rest) => (blank.withTexts (draft.label.getD "") (draft.message.getD ""), rest)

def blankOf (kind : String) : Error := (ofKind? "" "" kind).getD (.internal "")

def stored (family : String) : Shape Error :=
  Shape.variant ((ofEveryKind "" "").map kind) (fun kind => .error (bareName (blankOf kind)))
    fun kind => content family (blankOf kind)

end RecordFlow.Error
