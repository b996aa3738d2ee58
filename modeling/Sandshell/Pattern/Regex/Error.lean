/-!
# Malformed expressions

Why a text is no regular expression.
-/

namespace Sandshell

/-- Why a text is no regular expression. -/
inductive RegexError where
  | nestedTooDeep
  | tooLarge
  | unclosedGroup
  | unclosedGroupQuestion
  | unopenedGroup
  | lookAround
  | emptyFlags
  | missingGroupName
  | invalidGroupName
  | unclosedGroupName
  | emptyGroupName
  | duplicateGroupName
  | unrecognizedFlag
  | repeatedNegation
  | duplicateFlag
  | unclosedFlags
  | danglingNegation
  | noDigits
  | invalidDecimal
  | bracedHexDigit
  | unclosedBracedHex
  | emptyBracedHex
  | invalidBracedHex
  | unclosedFixedHex
  | fixedHexDigit
  | invalidFixedHex
  | unclosedHex
  | unclosedEscape
  | backreference
  | unicodeClass
  | unrecognizedEscape
  | missingRepeated
  | missingCounted
  | unclosedCount
  | unclosedCountMin
  | unclosedCountComma
  | unclosedCountMax
  | invalidCount
  | invalidCountRange
  | unclosedClass
  | unclosedClassItem
  | unclosedClassDash
  | unclosedNegatedClass
  | unclosedBracketClass
  | invalidClassRange
  | invalidClassRangeItem
  | invalidClassItem
  | nestedClass
  | classIntersection
  | classDifference
  | classSymmetricDifference
  | unclosedWordBoundary
  | unrecognizedWordBoundary
  | unfinishedWordBoundary
deriving DecidableEq, Repr, Inhabited

/-- The wording of a malformed expression. -/
def RegexError.message : RegexError → String
  | .nestedTooDeep => "pattern has too much nesting"
  | .tooLarge => "compiled regex exceeded size limit"
  | .unclosedGroup => "found open group without closing ')'"
  | .unclosedGroupQuestion => "expected closing ')', but got end of pattern"
  | .unopenedGroup => "found closing ')' without matching '('"
  | .lookAround => "look-around is not supported"
  | .emptyFlags => "empty flag directive '(?)' is not allowed"
  | .missingGroupName => "expected capture group name, but got end of pattern"
  | .invalidGroupName => "invalid group name"
  | .unclosedGroupName => "expected end of capture group name, but got end of pattern"
  | .emptyGroupName => "empty capture group names are not allowed"
  | .duplicateGroupName => "duplicate capture group name"
  | .unrecognizedFlag => "unrecognized inline flag"
  | .repeatedNegation => "inline flag negation cannot be repeated"
  | .duplicateFlag => "duplicate inline flag is not allowed"
  | .unclosedFlags => "expected ':' or ')' to end inline flags, but got end of pattern"
  | .danglingNegation => "inline flags cannot end with negation directive"
  | .noDigits => "expected decimal number, but found no digits"
  | .invalidDecimal => "got invalid decimal number"
  | .bracedHexDigit => "expected hexadecimal number in braces, but got non-hex digit"
  | .unclosedBracedHex =>
    "expected hexadecimal number, but saw end of pattern before closing brace"
  | .emptyBracedHex => "expected hexadecimal number in braces, but got no digits"
  | .invalidBracedHex => "got invalid hexadecimal number in braces"
  | .unclosedFixedHex =>
    "expected fixed length hexadecimal number, but saw end of pattern first"
  | .fixedHexDigit => "expected fixed length hexadecimal number, but got non-hex digit"
  | .invalidFixedHex => "got invalid fixed length hexadecimal number"
  | .unclosedHex => "expected hexadecimal number, but saw end of pattern first"
  | .unclosedEscape =>
    "saw start of escape sequence, but saw end of pattern before it finished"
  | .backreference => "backreferences are not supported"
  | .unicodeClass => "Unicode character classes are not supported"
  | .unrecognizedEscape => "unrecognized escape sequence"
  | .missingRepeated => "uncounted repetition operator must be applied to a sub-expression"
  | .missingCounted => "counted repetition operator must be applied to a sub-expression"
  | .unclosedCount => "found unclosed counted repetition operator"
  | .unclosedCountMin => "found incomplete and unclosed counted repetition operator"
  | .unclosedCountComma => "found counted repetition operator with a comma that is unclosed"
  | .unclosedCountMax => "found counted repetition with min and max that is unclosed"
  | .invalidCount => "expected closing brace for counted repetition, but got something else"
  | .invalidCountRange => "found counted repetition with a min bigger than its max"
  | .unclosedClass => "found unclosed character class"
  | .unclosedClassItem => "non-empty character class has no closing bracket"
  | .unclosedClassDash => "non-empty character class has no closing bracket after dash"
  | .unclosedNegatedClass => "negated character class has no closing bracket"
  | .unclosedBracketClass =>
    "character class begins with literal ']' but has no closing bracket"
  | .invalidClassRange => "invalid range in character class"
  | .invalidClassRangeItem => "character class ranges must start and end with a single character"
  | .invalidClassItem => "invalid escape sequence in character class"
  | .nestedClass => "nested character classes are not supported"
  | .classIntersection => "character class intersection is not supported"
  | .classDifference => "character class difference is not supported"
  | .classSymmetricDifference => "character class symmetric difference is not supported"
  | .unclosedWordBoundary =>
    "special word boundary assertion is unclosed or has an invalid character"
  | .unrecognizedWordBoundary =>
    "special word boundary assertion is unrecognized"
  | .unfinishedWordBoundary =>
    "found start of special word boundary or repetition without an end"

end Sandshell
