/-
# Trees and tokens as documents

The printed form of a parse: one record for each token, or one record for each
node of the tree, with its fields in alphabetical order.
-/

import Juxta.Fraction.Record
import Juxta.Token.Basic
import Juxta.Tree.Basic

namespace Juxta

/-- The record of a token. The text is left out when it is empty. -/
def Token.document (token : Token) : Document :=
  .mapping (Document.field "type" (.text token.kind.name) ::
    Document.textField "value" token.text ++ [Document.field "pos" (.integer token.pos)])

namespace Tree

/-- The field that names the sort of a node. -/
def typeField (name : String) : Bytes × Document := Document.field "type" (.text (utf8 name))

mutual

/-- The record of a node. -/
def document : Tree → Document
  | expression child isEmpty =>
      .mapping (Document.field "child" child.document ::
        (if isEmpty then [Document.field "empty" (.flag true)] else []) ++
          [typeField "Expression"])
  | combination symbol left right =>
      .mapping [Document.field "left" left.document,
        Document.field "operator" (.text symbol),
        Document.field "right" right.document, typeField "Combination"]
  | application callee argument =>
      .mapping [Document.field "argument" argument.document,
        Document.field "function" callee.document, typeField "Application"]
  | function parameter body =>
      .mapping (Document.field "body" body.document ::
        Document.textField "param" (parameter.getD []) ++ [typeField "Function"])
  | list elements =>
      .mapping [Document.field "elements" (.sequence (documents elements)), typeField "List"]
  | dictionary entries =>
      .mapping [Document.field "entries" (.sequence (entryDocuments entries)),
        typeField "Dictionary"]
  | word name => .mapping [Document.field "name" (.text name), typeField "Word"]
  | operator text _ => .mapping [Document.field "op" (.text text), typeField "Operator"]
  | number value => .mapping [typeField "Number", Document.field "value" value.document]
  | string literal _ => .mapping [Document.field "literal" (.text literal), typeField "String"]
  | null => .mapping [typeField "Null"]
  | hole => .null

/-- The records of several nodes. -/
def documents : List Tree → List Document
  | [] => []
  | tree :: rest => tree.document :: documents rest

/-- The records of the entries of a dictionary literal. -/
def entryDocuments : List (Tree × Tree) → List Document
  | [] => []
  | (key, value) :: rest =>
      .mapping [Document.field "key" key.document, Document.field "value" value.document] ::
        entryDocuments rest

end

end Tree

end Juxta
