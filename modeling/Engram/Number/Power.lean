/-!
Powers of the two bases in use.
-/

namespace Engram.Number

def twoTo (n : Nat) : Nat := Nat.pow 2 n

def tenTo (n : Nat) : Nat := Nat.pow 10 n

end Engram.Number
