import Engram.Text.Blank

/-!
Texts as words and as lines. A word is a longest run without blanks; a line ends at a line feed,
together with a carriage return right before it.
-/

namespace Engram.Text

/-- Drop the characters of a class from both ends. -/
def trimClass (p : Char → Bool) (cs : List Char) : List Char :=
  ((cs.dropWhile p).reverse.dropWhile p).reverse

def trim (s : String) : String :=
  String.ofList (trimClass isBlank s.toList)

/-- Split at every character of a class, keeping empty pieces. -/
def splitAtClass (p : Char → Bool) : List Char → List (List Char)
  | [] => [[]]
  | c :: rest =>
    match splitAtClass p rest with
    | [] => [[c]]
    | piece :: pieces => if p c then [] :: piece :: pieces else (c :: piece) :: pieces

/-- The maximal runs of characters outside a class. -/
def runsOutside (p : Char → Bool) (cs : List Char) : List (List Char) :=
  (splitAtClass p cs).filter (!·.isEmpty)

def words (s : String) : List String :=
  (runsOutside isBlank s.toList).map String.ofList

/-- Drop a carriage return at the very end. -/
def dropReturn (cs : List Char) : List Char :=
  if cs.getLast? = some '\r' then cs.dropLast else cs

/-- The lines of a text. A line feed ends a line rather than starting one, so a text that ends in
one has no empty last line; a carriage return counts only in front of a line feed. -/
def linesOf (cs : List Char) : List (List Char) :=
  match (splitAtClass (· = '\n') cs).reverse with
  | [] => []
  | last :: ended =>
    let complete := (ended.map dropReturn).reverse
    if last.isEmpty then complete else complete ++ [last]

def lines (s : String) : List String :=
  (linesOf s.toList).map String.ofList

end Engram.Text
