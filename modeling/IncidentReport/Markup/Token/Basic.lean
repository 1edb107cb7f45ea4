/-!
The pieces that a text in markup falls into. A token keeps all that it was
spelled with, so that the spellings of the tokens of a text, one after another,
are the text again and the position of a token is the size of what stands
before it.
-/

namespace IncidentReport.Markup

/-- A piece of markup, or the text between two pieces. -/
inductive Token where
  /-- Text up to the next `<`, with its escapes. -/
  | text (raw : List Char)
  | cdata (content : List Char)
  | comment (content : List Char)
  /-- A document type; `raw` begins behind `<!`. -/
  | doctype (raw : List Char)
  /-- An instruction or a declaration; `raw` stands between the question marks. -/
  | instruction (raw : List Char)
  /-- A start tag, less its closing slash if it is `closed`. -/
  | startTag (raw : List Char) (closed : Bool)
  /-- An end tag; `raw` begins behind `</`. -/
  | endTag (raw : List Char)
  deriving DecidableEq, Repr

namespace Token

def spelling : Token → List Char
  | text raw => raw
  | cdata content => ['<', '!', '[', 'C', 'D', 'A', 'T', 'A', '['] ++ content ++ [']', ']', '>']
  | comment content => ['<', '!', '-', '-'] ++ content ++ ['-', '-', '>']
  | doctype raw => ['<', '!'] ++ raw ++ ['>']
  | instruction raw => ['<', '?'] ++ raw ++ ['?', '>']
  | startTag raw closed => ['<'] ++ raw ++ (if closed then ['/', '>'] else ['>'])
  | endTag raw => ['<', '/'] ++ raw ++ ['>']

end Token

end IncidentReport.Markup
