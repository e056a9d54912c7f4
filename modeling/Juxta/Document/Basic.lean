/-
# Documents

What is written as JSON or YAML is first a document: scalars, sequences and
mappings whose fields keep their order.
-/

import Juxta.Text.Bytes

namespace Juxta

/-- A tree of scalars, sequences and ordered mappings. -/
inductive Document
  | null
  | flag (value : Bool)
  | integer (value : Int)
  | text (content : Bytes)
  | sequence (items : List Document)
  | mapping (fields : List (Bytes × Document))
  deriving Inhabited

namespace Document

/-- A field with a fixed name. -/
def field (name : String) (value : Document) : Bytes × Document := (utf8 name, value)

/-- A text field that is left out when the text is empty. -/
def textField (name : String) (content : Bytes) : List (Bytes × Document) :=
  if content.isEmpty then [] else [field name (text content)]

/-- A sequence field that is left out when the sequence is empty. -/
def sequenceField (name : String) (items : List Document) : List (Bytes × Document) :=
  if items.isEmpty then [] else [field name (sequence items)]

end Document

end Juxta
