/-
# Documents as YAML

Documents are written in block style. What is nested under a key starts on the
next line, further in; the fields of a list item stand to the right of its dash.
-/

import Juxta.Document.Basic
import Juxta.Document.Yaml.Scalar

namespace Juxta.Document

/-- The scalar form of a document that is written behind its key. -/
def yamlInline? (column : Nat) : Document → Option Bytes
  | null => some (utf8 "null")
  | flag value => some (if value then utf8 "true" else utf8 "false")
  | integer value => some (Numeral.ofInt value)
  | text content => some (Yaml.scalar column content)
  | sequence [] => some (utf8 "[]")
  | mapping [] => some (utf8 "\x7b\x7d")
  | _ => none

/-- Ends a line unless it is ended already. -/
def endLine (text : Bytes) : Bytes :=
  if text.getLast? = some Ascii.newline then text else text ++ [Ascii.newline]

/-- A list item: its block, with a dash in the indentation of the first line. -/
def dashed (column : Nat) (block : Bytes) : Bytes :=
  Bytes.fill column Ascii.space ++ [Ascii.minus, Ascii.space] ++ block.drop (column + 2)

/-- A field: its key, and behind or below it the value. -/
def keyed (column : Nat) (name : Bytes) (inline? : Option Bytes) (block : Bytes) : Bytes :=
  Bytes.fill column Ascii.space ++ name ++ [Ascii.colon] ++
    match inline? with
    | some line => Ascii.space :: endLine line
    | none => Ascii.newline :: block

mutual

/-- The lines of a document that starts at a column. -/
def yamlBlock (column : Nat) : Document → Bytes
  | sequence [] => Bytes.fill column Ascii.space ++ utf8 "[]\n"
  | sequence items => yamlItems column items
  | mapping [] => Bytes.fill column Ascii.space ++ utf8 "\x7b\x7d\n"
  | mapping fields => yamlFields column fields
  | scalar => Bytes.fill column Ascii.space ++ endLine ((yamlInline? column scalar).getD [])

/-- The lines of list items. -/
def yamlItems (column : Nat) : List Document → Bytes
  | [] => []
  | item :: rest => dashed column (item.yamlBlock (column + 2)) ++ yamlItems column rest

/-- The lines of fields. -/
def yamlFields (column : Nat) : List (Bytes × Document) → Bytes
  | [] => []
  | (name, value) :: rest =>
      keyed column name (yamlInline? column value) (value.yamlBlock (Yaml.nestedColumn column)) ++
        yamlFields column rest

end

/-- A document as YAML. -/
def yaml (document : Document) : Bytes := document.yamlBlock 0

end Juxta.Document
