import Engram.Text.Alphanumeric
import Engram.Text.Lowercase
import Engram.Text.Words

/-!
Words and concepts of a text. A bare word is a word in lower case without the punctuation around
it; a concept is a bare word of more than three characters that carries meaning of its own.
-/

namespace Engram

namespace Text

/-- A word without what surrounds its letters and numbers, in lower case. -/
def bareWord (cs : List Char) : String :=
  lowercase (String.ofList (trimClass (fun c => !isAlphanumeric c) cs))

/-- The bare words of a text in order; a word of punctuation alone leaves an empty one. -/
def bareWords (s : String) : List String :=
  (runsOutside isBlank s.toList).map bareWord

/-- The distinct words of a text, in order of first appearance. -/
def vocabulary (s : String) : List String :=
  ((bareWords s).filter (· ≠ "")).eraseDups

end Text

namespace Concept

/-- Words that carry no concept. -/
def stopWords : List String := [
  "about", "after", "again", "also", "been", "before", "being", "between", "both", "could",
  "does", "doing", "down", "during", "each", "from", "further", "have", "having", "here",
  "into", "just", "more", "most", "only", "other", "over", "same", "should", "some", "such",
  "than", "that", "their", "them", "then", "there", "these", "they", "this", "those",
  "through", "under", "until", "very", "want", "were", "what", "when", "where", "which",
  "while", "will", "with", "would", "your", "yours"]

def isConcept (word : String) : Bool :=
  3 < word.length && !stopWords.contains word

/-- The concepts of a text, each once, in order of first appearance. -/
def keywords (s : String) : List String :=
  ((Text.bareWords s).filter isConcept).eraseDups

/-- The words of a text that are marked as tags, without the mark. Only single spaces separate
words here, and repeated tags stay. -/
def tags (s : String) : List String :=
  (Text.splitAtClass (· = ' ') s.toList).filterMap fun
    | '#' :: tag => some (String.ofList tag)
    | _ => none

end Concept

/-- How the concepts of a text are found. -/
abbrev Extractor := String → List String

end Engram
