namespace PortLease.Text

/-- First and last code point of each stretch of white space. -/
def blankRanges : List (Nat × Nat) :=
  [(0x09, 0x0D), (0x20, 0x20), (0x85, 0x85), (0xA0, 0xA0), (0x1680, 0x1680), (0x2000, 0x200A),
   (0x2028, 0x2029), (0x202F, 0x202F), (0x205F, 0x205F), (0x3000, 0x3000)]

def isBlank (c : Char) : Bool :=
  blankRanges.any fun r => r.1 ≤ c.toNat && c.toNat ≤ r.2

def dropEndWhile (q : Char → Bool) (cs : List Char) : List Char :=
  (cs.reverse.dropWhile q).reverse

def trimStart (cs : List Char) : List Char := cs.dropWhile isBlank

def trimEnd (cs : List Char) : List Char := dropEndWhile isBlank cs

def trim (cs : List Char) : List Char := trimEnd (trimStart cs)

def wordsCons (c : Char) : List (List Char) → List (List Char)
  | [] => if isBlank c then [[]] else [[c]]
  | w :: ws => if isBlank c then [] :: w :: ws else (c :: w) :: ws

def words (cs : List Char) : List (List Char) :=
  (cs.foldr wordsCons [[]]).filter fun w => !w.isEmpty

def asciiUpper (cs : List Char) : List Char := cs.map Char.toUpper

def asciiLower (cs : List Char) : List Char := cs.map Char.toLower

example : (blankRanges.map fun r => r.2 + 1 - r.1).sum = 25 := rfl

end PortLease.Text
