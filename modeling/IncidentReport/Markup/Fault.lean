import IncidentReport.Markup.Basic

/-!
What can be wrong with a text that should be markup, and how it is worded.
Positions and ranges count the bytes of the UTF-8 form.
-/

namespace IncidentReport.Markup

/-- What is wrong with the number in a character reference. -/
inductive ReferenceFault where
  /-- The number starts with a sign. -/
  | sign
  | empty
  /-- A character is no digit. -/
  | digit
  /-- The number needs more than 32 bits. -/
  | tooLarge
  | zero
  /-- No character has this number. -/
  | noCharacter (code : Nat)
  deriving DecidableEq, Repr

def ReferenceFault.message : ReferenceFault → String
  | .sign => "unexpected number sign"
  | .empty => "cannot parse integer from empty string"
  | .digit => "invalid digit found in string"
  | .tooLarge => "number too large to fit in target type"
  | .zero => "0x0 character is not permitted in XML"
  | .noCharacter code => s!"`{code}` is not a valid codepoint"

/-- What is wrong with a piece of markup. -/
inductive Fault where
  /-- `<!` is followed by none of the forms that may follow it. -/
  | unknownDeclaration
  | unclosedInstruction
  | unclosedComment
  | unclosedDoctype
  | unclosedCData
  | unclosedTag
  /-- The document type has no name. -/
  | namelessDoctype
  /-- An end tag with nothing to close. -/
  | unmatchedEnd (found : String)
  /-- An end tag that closes another element than the innermost open one. -/
  | mismatchedEnd (expected found : String)
  /-- An entity that is not predefined. The range is that of its name. -/
  | unknownEntity (start stop : Nat) (name : String)
  /-- An ampersand without its semicolon. -/
  | unclosedEntity (start stop : Nat)
  | badReference (why : ReferenceFault)
  /-- The name of an attribute is not followed by an equals sign. -/
  | missingEquals (position : Nat)
  | missingValue (position : Nat)
  | unquotedValue (position : Nat)
  | unclosedValue (position : Nat) (quote : Char)
  | repeatedAttribute (position earlier : Nat)
  /-- A fault found elsewhere, in the words of whoever found it. -/
  | reported (description : String)
  deriving DecidableEq, Repr

def Fault.message : Fault → String
  | .unknownDeclaration => "syntax error: unknown or missed symbol in markup"
  | .unclosedInstruction =>
    "syntax error: processing instruction or xml declaration not closed: " ++
      "`?>` not found before end of input"
  | .unclosedComment => "syntax error: comment not closed: `-->` not found before end of input"
  | .unclosedDoctype => "syntax error: DOCTYPE not closed: `>` not found before end of input"
  | .unclosedCData => "syntax error: CDATA not closed: `]]>` not found before end of input"
  | .unclosedTag => "syntax error: tag not closed: `>` not found before end of input"
  | .namelessDoctype =>
    "ill-formed document: `<!DOCTYPE>` declaration does not contain a name of a document type"
  | .unmatchedEnd found =>
    s!"ill-formed document: close tag `</{found}>` does not match any open tag"
  | .mismatchedEnd expected found =>
    s!"ill-formed document: expected `</{expected}>`, but `</{found}>` was found"
  | .unknownEntity start stop name => s!"at {start}..{stop}: unrecognized entity `{name}`"
  | .unclosedEntity start stop =>
    s!"Error while escaping character at range {start}..{stop}: Cannot find ';' after '&'"
  | .badReference why => s!"invalid character reference: {why.message}"
  | .missingEquals position =>
    s!"position {position}: attribute key must be directly followed by `=` or space"
  | .missingValue position => s!"position {position}: `=` must be followed by an attribute value"
  | .unquotedValue position =>
    s!"position {position}: attribute value must be enclosed in `\"` or `'`"
  | .unclosedValue position quote =>
    s!"position {position}: missing closing quote `{quote}` in attribute value"
  | .repeatedAttribute position earlier =>
    s!"position {position}: duplicated attribute, previous declaration at position {earlier}"
  | .reported description => description

/-- Why a text is not a document, or could not be handed on. -/
inductive Error where
  /-- A fault in the piece of markup that starts at this byte. -/
  | syntaxFault (position : Nat) (fault : Fault)
  /-- An end tag where no element is open. -/
  | unbalancedEnd (position : Nat)
  /-- The text ends inside an element. -/
  | unexpectedEnd
  | missingRoot
  /-- Something other than space outside the root element. -/
  | trailingContent (position : Nat)
  | invalidEncoding (position : Nat)
  | notWritten (description : String)
  deriving DecidableEq, Repr

def Error.message : Error → String
  | .syntaxFault position fault => s!"malformed xml at byte {position}: {fault.message}"
  | .unbalancedEnd position => s!"unbalanced end tag at byte {position}"
  | .unexpectedEnd => "unexpected end of input"
  | .missingRoot => "document has no root element"
  | .trailingContent position => s!"content after root element at byte {position}"
  | .invalidEncoding position => s!"invalid utf-8 at byte {position}"
  | .notWritten description => s!"xml write failed: {description}"

end IncidentReport.Markup
