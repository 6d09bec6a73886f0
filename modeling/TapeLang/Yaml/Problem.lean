/-!
# What can be wrong with a YAML text

* `Problem`: a fault in the text of a document.
* `ScanError` and `NodeError`: a fault together with the lines that a message may name. A message names
  the line where the construct starts, or, if that is the first line, the line where the fault was
  noticed, and no line at all if that is the first line too.
-/

namespace TapeLang.Yaml

/-- Why bytes are no sequence of allowed characters. -/
inductive EncodingProblem where
  | leadingOctet
  | incomplete
  | trailingOctet
  | length
  | notUnicode
  | control
  | halfWord
  | halfPair
  | lowSurrogate
  | noLowSurrogate
  deriving DecidableEq, Repr

def EncodingProblem.message : EncodingProblem → String
  | leadingOctet => "invalid leading UTF-8 octet"
  | incomplete => "incomplete UTF-8 octet sequence"
  | trailingOctet => "invalid trailing UTF-8 octet"
  | length => "invalid length of a UTF-8 sequence"
  | notUnicode => "invalid Unicode character"
  | control => "control characters are not allowed"
  | halfWord => "incomplete UTF-16 character"
  | halfPair => "incomplete UTF-16 surrogate pair"
  | lowSurrogate => "unexpected low surrogate area"
  | noLowSurrogate => "expected low surrogate area"

/-- A fault in the text of a document. -/
inductive Problem where
  | missingColon
  | blockEntryHere
  | keyHere
  | valueHere
  | noToken
  | anchorName
  | tagHandle
  | tagUri
  | tagClose
  | tagEnd
  | uriEscape
  | uriLeadingOctet
  | uriTrailingOctet
  | directiveName
  | directiveNameEnd
  | unknownDirective
  | versionNumber
  | longVersion
  | versionDot
  | directiveBlank
  | lineEnd
  | documentIndicator
  | streamEnd
  | escape
  | hexDigits
  | escapeValue
  | zeroIndentation
  | tabIndentation
  | tabForSpace
  | documentStart
  | nodeContent
  | dash
  | key
  | commaOrBracket
  | commaOrBrace
  | unknownHandle
  | incompatible
  | repeatedVersion
  | repeatedHandle
  | tooDeep
  /-- Bytes that are needed are no characters. -/
  | unreadable (problem : EncodingProblem)
  deriving DecidableEq, Repr

/-- How many collections may stand in one another. -/
def maxDepth : Nat := 10000

def Problem.message : Problem → String
  | missingColon => "could not find expected ':'"
  | blockEntryHere => "block sequence entries are not allowed in this context"
  | keyHere => "mapping keys are not allowed in this context"
  | valueHere => "mapping values are not allowed in this context"
  | noToken => "found character that cannot start any token"
  | anchorName => "did not find expected alphabetic or numeric character"
  | tagHandle => "did not find expected '!'"
  | tagUri => "did not find expected tag URI"
  | tagClose => "did not find the expected '>'"
  | tagEnd => "did not find expected whitespace or line break"
  | uriEscape => "did not find URI escaped octet"
  | uriLeadingOctet => "found an incorrect leading UTF-8 octet"
  | uriTrailingOctet => "found an incorrect trailing UTF-8 octet"
  | directiveName => "could not find expected directive name"
  | directiveNameEnd => "found unexpected non-alphabetical character"
  | unknownDirective => "found unknown directive name"
  | versionNumber => "did not find expected version number"
  | longVersion => "found extremely long version number"
  | versionDot => "did not find expected digit or '.' character"
  | directiveBlank => "did not find expected whitespace"
  | lineEnd => "did not find expected comment or line break"
  | documentIndicator => "found unexpected document indicator"
  | streamEnd => "found unexpected end of stream"
  | escape => "found unknown escape character"
  | hexDigits => "did not find expected hexdecimal number"
  | escapeValue => "found invalid Unicode character escape code"
  | zeroIndentation => "found an indentation indicator equal to 0"
  | tabIndentation => "found a tab character that violates indentation"
  | tabForSpace => "found a tab character where an indentation space is expected"
  | documentStart => "did not find expected <document start>"
  | nodeContent => "did not find expected node content"
  | dash => "did not find expected '-' indicator"
  | key => "did not find expected key"
  | commaOrBracket => "did not find expected ',' or ']'"
  | commaOrBrace => "did not find expected ',' or '\x7d'"
  | unknownHandle => "found undefined tag handle"
  | incompatible => "found incompatible YAML document"
  | repeatedVersion => "found duplicate %YAML directive"
  | repeatedHandle => "found duplicate %TAG directive"
  | tooDeep => "exceeded max depth of " ++ toString maxDepth
  | unreadable p => p.message

/-- A fault that shows in the characters. Lines count from zero. -/
structure ScanError where
  problem : Problem
  /-- Where the construct starts. -/
  start : Nat
  /-- Where the fault was noticed. -/
  line : Nat
  deriving DecidableEq, Repr

/-- A fault that shows in the order of the tokens. Lines count from zero. -/
structure NodeError where
  problem : Problem
  /-- Where the construct starts. -/
  start : Nat
  /-- Where the fault was noticed. -/
  line : Nat
  deriving DecidableEq, Repr

/-- Why a text is no document. -/
inductive Error where
  | scan (error : ScanError)
  | node (error : NodeError)
  | unknownAnchor (name : String)
  deriving DecidableEq, Repr

namespace Error

/-- The start of a message that names a line, if it is a positive number. -/
def linePart (line : Nat) : String :=
  if line = 0 then "" else "line " ++ toString line ++ ": "

/-- A fault in the characters is told by the number of its line counted from one, a fault in the order
of the tokens by that counted from zero. -/
def message : Error → String
  | scan e =>
    let line := if e.start ≠ 0 then e.start + 1 else if e.line ≠ 0 then e.line + 1 else 0
    "yaml: " ++ linePart line ++ e.problem.message
  | node e => "yaml: " ++ linePart (if e.start ≠ 0 then e.start else e.line) ++ e.problem.message
  | unknownAnchor name => "yaml: unknown anchor '" ++ name ++ "' referenced"

end Error

end TapeLang.Yaml
