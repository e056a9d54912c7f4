/-
# From source text to tokens

The scanner reads one byte at a time. What it has seen of an unfinished token
is its mode; a byte leads to the next mode and completes at most two tokens.
White space and every other token end a pending word or operator, but a comment
does not: `ab#c#d` is the single word `abd`.

A number takes digits, underscores and at most one point. A point that would be
its last byte belongs to the operator after it, so `1.` is a number and an
operator, while `1._` is a number.
-/

import Juxta.Token.Basic

namespace Juxta.Token

/-- The part that a byte plays outside strings and comments. -/
inductive ByteClass
  | hash | quote | blank | bracket | special | null | infinity | digit | operator | word
  deriving DecidableEq, Repr

/-- The bytes that make up operators. -/
def isOperatorByte (byte : UInt8) : Bool :=
  [Ascii.plus, Ascii.minus, Ascii.star, Ascii.slash, Ascii.less, Ascii.greater, Ascii.equals,
    Ascii.point, Ascii.tilde, Ascii.ampersand, Ascii.bar, Ascii.caret].contains byte

/-- The bytes that separate tokens. -/
def isBlankByte (byte : UInt8) : Bool :=
  [Ascii.space, Ascii.tab, Ascii.carriageReturn, Ascii.newline].contains byte

/-- The bracket bytes. -/
def isBracketByte (byte : UInt8) : Bool :=
  [Ascii.openParen, Ascii.closeParen, Ascii.openBracket, Ascii.closeBracket, Ascii.openBrace,
    Ascii.closeBrace].contains byte

/-- The bytes of the other punctuation marks. -/
def isSpecialByte (byte : UInt8) : Bool :=
  [Ascii.backslash, Ascii.colon, Ascii.comma].contains byte

/-- Classifies a byte. Whatever plays no other part belongs to words. -/
def ByteClass.of (byte : UInt8) : ByteClass :=
  if byte = Ascii.hash then hash
  else if byte = Ascii.quote then quote
  else if isBlankByte byte then blank
  else if isBracketByte byte then bracket
  else if isSpecialByte byte then special
  else if byte = Ascii.underscore then null
  else if byte = Ascii.atSign then infinity
  else if Ascii.isDigit byte then digit
  else if isOperatorByte byte then operator
  else word

/-- An unfinished word or operator, its bytes last one first. -/
structure Pending where
  isWord : Bool
  start : Nat
  reversed : Bytes
  deriving DecidableEq, Repr

/-- An unfinished number: the bytes so far last one first, and whether a point
is among them. -/
structure Figures where
  start : Nat
  reversed : Bytes
  pointed : Bool
  deriving DecidableEq, Repr

/-- An unfinished string: its source bytes and its decoded bytes, last one first. -/
structure Literal where
  start : Nat
  reversed : Bytes
  decoded : Bytes
  escaped : Bool
  deriving DecidableEq, Repr

/-- What the scanner is in the middle of. A comment keeps the word or operator
that it interrupts. -/
inductive Mode
  | between
  | pending (word : Pending)
  | comment (start : Nat) (escaped : Bool) (interrupted : Option Pending)
  | string (literal : Literal)
  | number (figures : Figures)
  deriving DecidableEq, Repr

/-- The token of a finished word or operator. -/
def Pending.token (pending : Pending) : Token :=
  ⟨if pending.isWord then .word else .operator, pending.reversed.reverse, pending.start⟩

/-- The value of a number's text: its digits, scaled by those after the point. -/
def Figures.value (text : Bytes) : Fraction :=
  let fraction := (text.dropWhile (· != Ascii.point)).filter Ascii.isDigit
  Fraction.ofDecimal (Numeral.digitsValue (text.filter Ascii.isDigit)) fraction.length

/-- Whether the last byte so far is the point. -/
def Figures.endsInPoint (figures : Figures) : Bool := figures.reversed.head? == some Ascii.point

/-- The token of a finished number, without a point at its end. -/
def Figures.token (figures : Figures) : Token :=
  let text := (if figures.endsInPoint then figures.reversed.tail else figures.reversed).reverse
  ⟨.number (Figures.value text), text, figures.start⟩

/-- The operator that a point at the end of a number starts. -/
def Figures.pending? (figures : Figures) : Option Pending :=
  if figures.endsInPoint then
    some ⟨false, figures.start + (figures.reversed.length - 1), [Ascii.point]⟩
  else none

/-- The mode of having an unfinished word or operator, or none. -/
def Mode.ofPending : Option Pending → Mode
  | none => between
  | some word => pending word

/-- The tokens of a pending word or operator. -/
def Pending.flush (word : Option Pending) : List Token := (word.map Pending.token).toList

/-- Continues a pending word or operator of the same sort with one byte, or
ends it and starts another. -/
def Pending.extend (isWord : Bool) (pos : Nat) (byte : UInt8) (word : Option Pending) :
    List Token × Mode :=
  match word with
  | some current =>
      if current.isWord = isWord then
        ([], .pending { current with reversed := byte :: current.reversed })
      else ([current.token], .pending ⟨isWord, pos, [byte]⟩)
  | none => ([], .pending ⟨isWord, pos, [byte]⟩)

/-- Reads a byte outside strings, comments and numbers. -/
def stepPlain (word : Option Pending) (pos : Nat) (byte : UInt8) : List Token × Mode :=
  match ByteClass.of byte with
  | .hash => ([], .comment pos false word)
  | .quote => (Pending.flush word, .string ⟨pos, [byte], [], false⟩)
  | .blank => (Pending.flush word, .between)
  | .bracket => (Pending.flush word ++ [⟨.bracket, [byte], pos⟩], .between)
  | .special => (Pending.flush word ++ [⟨.special, [byte], pos⟩], .between)
  | .null => (Pending.flush word ++ [⟨.null, [byte], pos⟩], .between)
  | .infinity => (Pending.flush word ++ [⟨.number Fraction.infinity, [byte], pos⟩], .between)
  | .digit => (Pending.flush word, .number ⟨pos, [byte], false⟩)
  | .operator => Pending.extend false pos byte word
  | .word => Pending.extend true pos byte word

/-- The byte that an escaped byte of a string stands for. -/
def unescape (byte : UInt8) : UInt8 :=
  if byte = Ascii.letterN then Ascii.newline
  else if byte = Ascii.letterT then Ascii.tab
  else byte

/-- Reads a byte inside a string. -/
def stepString (literal : Literal) (byte : UInt8) : List Token × Mode :=
  let reversed := byte :: literal.reversed
  if literal.escaped then
    ([], .string ⟨literal.start, reversed, unescape byte :: literal.decoded, false⟩)
  else if byte = Ascii.quote then
    ([⟨.string literal.decoded.reverse, reversed.reverse, literal.start⟩], .between)
  else if byte = Ascii.backslash then
    ([], .string { literal with reversed := reversed, escaped := true })
  else ([], .string ⟨literal.start, reversed, byte :: literal.decoded, false⟩)

/-- Reads a byte inside a comment. -/
def stepComment (start : Nat) (escaped : Bool) (interrupted : Option Pending) (byte : UInt8) :
    Mode :=
  if escaped then .comment start false interrupted
  else if byte = Ascii.backslash then .comment start true interrupted
  else if byte = Ascii.hash then Mode.ofPending interrupted
  else .comment start false interrupted

/-- Whether a number goes on with a byte. -/
def Figures.accepts (figures : Figures) (byte : UInt8) : Bool :=
  Ascii.isDigit byte || byte = Ascii.underscore || (byte = Ascii.point && !figures.pointed)

/-- Reads a byte after the start of a number. -/
def stepNumber (figures : Figures) (pos : Nat) (byte : UInt8) : List Token × Mode :=
  if figures.accepts byte then
    ([], .number ⟨figures.start, byte :: figures.reversed,
      figures.pointed || byte = Ascii.point⟩)
  else
    let next := stepPlain figures.pending? pos byte
    (figures.token :: next.1, next.2)

namespace Mode

/-- Reads the byte at an offset: the tokens it completes and the mode after it. -/
def step (mode : Mode) (pos : Nat) (byte : UInt8) : List Token × Mode :=
  match mode with
  | between => stepPlain none pos byte
  | pending word => stepPlain (some word) pos byte
  | comment start escaped interrupted => ([], stepComment start escaped interrupted byte)
  | string literal => stepString literal byte
  | number figures => stepNumber figures pos byte

/-- The tokens that the end of the text completes. -/
def finish : Mode → Except LexError (List Token)
  | between => .ok []
  | pending word => .ok [word.token]
  | comment start _ _ => .error ⟨start, .comment⟩
  | string literal => .error ⟨literal.start, .string⟩
  | number figures => .ok (figures.token :: Pending.flush figures.pending?)

/-- Reads a text that starts at an offset: the tokens it completes and the mode
after it. -/
def run (mode : Mode) (pos : Nat) : Bytes → List Token × Mode
  | [] => ([], mode)
  | byte :: rest =>
      let next := mode.step pos byte
      let later := next.2.run (pos + 1) rest
      (next.1 ++ later.1, later.2)

end Mode

/-- The tokens of a source text. -/
def scan (source : Bytes) : Except LexError (List Token) :=
  let (tokens, mode) := Mode.between.run 0 source
  mode.finish.map (tokens ++ ·)

end Juxta.Token
