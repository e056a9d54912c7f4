/-
# Tokens

A program is read as a flat sequence of tokens. A token keeps the text it was
written with and the byte offset at which it starts. Numbers and strings also
carry the value they denote.
-/

import Juxta.Fraction.Basic

namespace Juxta

/-- What a token is. Besides the kinds that occur in source text there is room
for foreign kinds, which token sequences built by hand may hold. -/
inductive Token.Kind
  | bracket
  | special
  | operator
  | word
  | number (value : Fraction)
  | string (value : Bytes)
  | null
  | foreign (name : Bytes)
  deriving DecidableEq, Repr

/-- A token with its text and the byte offset of its first byte. -/
structure Token where
  kind : Token.Kind
  text : Bytes
  pos : Int
  deriving DecidableEq, Repr

namespace Token

/-- The name of a token's kind. -/
def Kind.name : Kind → Bytes
  | bracket => utf8 "BRACKET"
  | special => utf8 "SPECIAL"
  | operator => utf8 "OPERATOR"
  | word => utf8 "WORD"
  | number _ => utf8 "NUMBER"
  | string _ => utf8 "STRING"
  | null => utf8 "NULL"
  | foreign name => name

/-- Brackets and specials are punctuation, which is told apart by its text. -/
def isPunctuation (token : Token) : Bool :=
  token.kind = .bracket || token.kind = .special

/-- Whether a token is the punctuation mark written as one given byte. -/
def isMark (token : Token) (mark : UInt8) : Bool := token.isPunctuation && token.text == [mark]

/-- The marks that end an expression: closing brackets, comma and colon. -/
def isTerminator (token : Token) : Bool :=
  token.isMark Ascii.closeParen || token.isMark Ascii.closeBracket ||
    token.isMark Ascii.closeBrace || token.isMark Ascii.comma || token.isMark Ascii.colon

end Token

/-- What was left open when the source text ended. -/
inductive Token.Open
  | comment
  | string
  deriving DecidableEq, Repr

/-- Reading tokens fails only where the text ends inside a comment or a string,
which starts at `pos`. More text could always mend it. -/
structure LexError where
  pos : Nat
  unterminated : Token.Open
  deriving DecidableEq, Repr

/-- The wording of an error. -/
def LexError.message (error : LexError) : Bytes :=
  utf8 "lex error at " ++ Numeral.ofNat error.pos ++ utf8 ": unterminated " ++
    match error.unterminated with
    | .comment => utf8 "comment"
    | .string => utf8 "string"

end Juxta
