import Engram.Text.CaseData
import Engram.Text.Ranges

/-!
The lowercase form of a text. Every character but two has a form of its own: a capital sigma
takes its final form at the end of a word, and a capital I with a dot becomes two characters.
-/

namespace Engram.Text

def capitalSigma : Char := 'Σ'

/-- The forms of one character, taken by itself. -/
def lowercaseForms (c : Char) : List Char :=
  if c.toNat < 0x80 then [c.toLower]
  else if c.toNat = 0x130 then ['i', Char.ofNat 0x307]
  else
    match lowercaseRuns.find? fun (first, last, step, _) =>
        first ≤ c.toNat && c.toNat ≤ last && (c.toNat - first) % step == 0 with
    | some (_, _, _, shift) => [Char.ofNat (c.toNat + shift).toNat]
    | none => [c]

/-- Whether the first character that case does not ignore is a cased one. -/
def startsCased (cs : List Char) : Bool :=
  match cs.dropWhile (inRanges caseIgnorableRanges) with
  | [] => false
  | c :: _ => inRanges casedRanges c

/-- Lowercase `rest`, where `before` is what already stands to its left, nearest first. A capital
sigma is final when a cased character precedes it and none follows. -/
def lowercaseFrom (before : List Char) : List Char → List Char
  | [] => []
  | c :: rest =>
    let forms :=
      if c = capitalSigma then
        [if startsCased before && !startsCased rest then 'ς' else 'σ']
      else lowercaseForms c
    forms ++ lowercaseFrom (c :: before) rest

def lowercase (s : String) : String :=
  String.ofList (lowercaseFrom [] s.toList)

end Engram.Text
