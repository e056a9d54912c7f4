/-
# Fractions survive their records

The record of a fraction holds two numerals. A JSON text hands them over as they
were written, a YAML mapping as its scalars, and both numerals read back.

Reading stores both integers at once when it has read both. Until then it only
looks, so a fraction into which reading failed is the fraction it was.
-/

import Juxta.Document.Json.Writer
import Juxta.Document.Yaml.Writer
import Juxta.Fraction.Record
import Juxta.Proofs.Document.Json

namespace Juxta.Fraction

theorem compact_document (value : Fraction) :
    value.document.compact =
      Ascii.openBrace :: Json.numeralMember (utf8 "num") value.num Ascii.comma
        (Json.numeralMember (utf8 "den") value.den Ascii.closeBrace []) := by
  have quotes (name : Bytes) (plain : Document.jsonString name =
      Ascii.quote :: (name ++ [Ascii.quote])) (later : Bytes) :
      Document.jsonString name ++ later = Ascii.quote :: (name ++ Ascii.quote :: later) := by
    simp [plain]
  have num := quotes (utf8 "num") (by decide)
  have den := quotes (utf8 "den") (by decide)
  simp [document, Document.field, Document.compact, Document.compactFields, Json.numeralMember,
    num, den]

theorem ofJson?_compact_document (value : Fraction) :
    Pair.ofJson? value.document.compact =
      some ⟨Numeral.ofInt value.num, Numeral.ofInt value.den⟩ := by
  rw [Pair.ofJson?, compact_document, Json.read?_numeralMembers (by decide) (by decide)]
  rfl

/-- The text of a mapping of scalars: a line for each key with its value. -/
def Node.text (node : Node) : Bytes := lines node.content
where
  lines : List Bytes → Bytes
    | key :: value :: rest => key ++ utf8 ": " ++ value ++ utf8 "\n" ++ lines rest
    | _ => []

theorem endLine_ofInt (number : Int) :
    Document.endLine (Numeral.ofInt number) = Numeral.ofInt number ++ utf8 "\n" := by
  have unended : (Numeral.ofInt number).getLast? ≠ some Ascii.newline := by
    intro last
    rcases Numeral.isDigit_or_minus_of_mem_ofInt (List.mem_of_getLast? last) with digit | minus
    · cases digit
    · cases minus
  rw [Document.endLine, if_neg unended]
  rfl

/-- The YAML text of a fraction shows its node. -/
theorem yaml_document (value : Fraction) : value.document.yaml = value.node.text := by
  have line (name : Bytes) (number : Int) (block : Bytes) :
      Document.keyed 0 name (some (Numeral.ofInt number)) block =
        name ++ utf8 ": " ++ Numeral.ofInt number ++ utf8 "\n" := by
    have mark : utf8 ": " = [Ascii.colon, Ascii.space] := rfl
    simp [Document.keyed, endLine_ofInt, Bytes.fill, mark]
  simp [Document.yaml, document, Document.field, Document.yamlBlock, Document.yamlFields,
    Document.yamlInline?, line, node, Node.text, Node.text.lines]

/-- The two outcomes of reading into a fraction: the fraction that was read is
there, or an error and the fraction that was there before. -/
def Receiving.IsAllOrNothing {ε : Type} (reading : Receiving ε Unit) : Prop :=
  ∀ receiver, (∃ value, reading.into receiver = (.ok (), value)) ∨
    ∃ error, reading.into receiver = (.error error, receiver)

theorem isAllOrNothing_throw {ε : Type} (error : ε) :
    Receiving.IsAllOrNothing (throw error : Receiving ε Unit) :=
  fun _ => .inr ⟨error, rfl⟩

theorem into_receivePair_ofInt (num den : Int) (receiver : Fraction) :
    (receivePair (Numeral.ofInt num) (Numeral.ofInt den)).into receiver = (.ok (), ⟨num, den⟩) := by
  rw [receivePair, Numeral.readInt?_ofInt, Numeral.readInt?_ofInt]
  rfl

/-- Nothing is stored before both integers have been read. -/
theorem isAllOrNothing_receivePair (num den : Bytes) : (receivePair num den).IsAllOrNothing := by
  rw [receivePair]
  split
  next n d _ _ => exact fun _ => .inl ⟨⟨n, d⟩, rfl⟩
  next => exact isAllOrNothing_throw _

theorem into_adapt {ε ε' : Type} (rename : ε → ε') (reading : Receiving ε Unit)
    (receiver : Fraction) :
    Receiving.into (ExceptT.adapt rename reading) receiver =
      ((reading.into receiver).1.mapError rename, (reading.into receiver).2) := rfl

theorem isAllOrNothing_receiveJson (text : Bytes) : (receiveJson text).IsAllOrNothing := by
  rw [receiveJson]
  split
  next => exact isAllOrNothing_throw _
  next pair _ =>
    intro receiver
    rw [into_adapt]
    have outcomes := isAllOrNothing_receivePair pair.num pair.den receiver
    rcases outcomes with ⟨value, read⟩ | ⟨error, failed⟩
    · rw [read]
      exact .inl ⟨value, rfl⟩
    · rw [failed]
      exact .inr ⟨.fraction error, rfl⟩

theorem isAllOrNothing_receiveNode (node : Node) : (receiveNode node).IsAllOrNothing := by
  rw [receiveNode]
  split
  next => exact isAllOrNothing_receivePair _ _
  next => exact isAllOrNothing_throw _

/-- A fraction is read back from its JSON text and from its node, which is what
its YAML text shows, whatever its integers are and whichever fraction receives
it. From every text and every node a fraction is read, or the receiving fraction
is left as it was. -/
theorem receive_document (value receiver : Fraction) :
    (receiveJson value.document.compact).into receiver = (.ok (), value) ∧
      value.document.yaml = value.node.text ∧
      (receiveNode value.node).into receiver = (.ok (), value) ∧
      (∀ text, (∃ other, (receiveJson text).into receiver = (.ok (), other)) ∨
        ∃ error, (receiveJson text).into receiver = (.error error, receiver)) ∧
      ∀ node, (∃ other, (receiveNode node).into receiver = (.ok (), other)) ∨
        ∃ error, (receiveNode node).into receiver = (.error error, receiver) := by
  refine ⟨?_, yaml_document value, ?_, fun text => isAllOrNothing_receiveJson text receiver,
    fun node => isAllOrNothing_receiveNode node receiver⟩
  · rw [receiveJson, ofJson?_compact_document, into_adapt, into_receivePair_ofInt]
    rfl
  · exact into_receivePair_ofInt value.num value.den receiver

end Juxta.Fraction
