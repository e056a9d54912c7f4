/-
# The raw form of values

The dump of a value shows its structure without interpretation: numbers as the
pair of integers they are, strings by their bytes, functions by the name of
their parameter or of the host function. Strings carry their text as well when
they are UTF-8.
-/

import Juxta.Document.Basic
import Juxta.Fraction.Record
import Juxta.Text.Utf8
import Juxta.Value.Basic

namespace Juxta

/-- The structure of a value. -/
inductive Dump
  | number (value : Fraction)
  | string (text : Option Bytes) (hex : Bytes)
  | null
  | list (items : List Dump)
  | dictionary (entries : List (Bytes × Dump))
  | closure (parameter : Option Bytes)
  | host (name : Bytes)
  | unknown
  deriving Inhabited

mutual

/-- The dump of a value. -/
def Value.dump : Value → Dump
  | .number value => .number value
  | .string bytes => .string (if Utf8.isValid bytes then some bytes else none) bytes.hex
  | .null => .null
  | .list items => .list (Value.dumpItems items)
  | .dictionary ⟨entries⟩ => .dictionary (Value.dumpEntries entries)
  | .closure (.host name) => .host name
  | .closure (.lambda _ parameter _) => .closure parameter
  | .foreign => .unknown
  | .nothing => .unknown

/-- The dumps of several values. -/
def Value.dumpItems : List Value → List Dump
  | [] => []
  | item :: rest => item.dump :: Value.dumpItems rest

/-- The dumps of the entries of a dictionary. -/
def Value.dumpEntries : List (Bytes × Value) → List (Bytes × Dump)
  | [] => []
  | (key, value) :: rest => (key, value.dump) :: Value.dumpEntries rest

end

namespace Dump

/-- The field that names the kind of a dump. -/
def typeField (name : String) : Bytes × Document := Document.field "type" (.text (utf8 name))

mutual

/-- The document of a dump. Fields that would be empty are left out. -/
def document : Dump → Document
  | number value => .mapping [typeField "NUMBER", Document.field "number" value.document]
  | string text hex =>
      .mapping (typeField "STRING" :: Document.textField "text" (text.getD []) ++
        Document.textField "hex" hex)
  | null => .mapping [typeField "NULL"]
  | list items =>
      .mapping (typeField "LIST" :: Document.sequenceField "items" (itemDocuments items))
  | dictionary entries =>
      .mapping (typeField "DICTIONARY" ::
        Document.sequenceField "entries" (entryDocuments entries))
  | closure parameter =>
      .mapping (typeField "CLOSURE" :: Document.textField "param" (parameter.getD []))
  | host name => .mapping (typeField "CLOSURE" :: Document.textField "builtin" name)
  | unknown => .mapping [typeField "UNKNOWN"]

/-- The documents of the items of a list. -/
def itemDocuments : List Dump → List Document
  | [] => []
  | item :: rest => item.document :: itemDocuments rest

/-- The documents of the entries of a dictionary. -/
def entryDocuments : List (Bytes × Dump) → List Document
  | [] => []
  | (key, value) :: rest =>
      .mapping [Document.field "key" (.text key), Document.field "value" value.document] ::
        entryDocuments rest

end

end Dump

end Juxta
