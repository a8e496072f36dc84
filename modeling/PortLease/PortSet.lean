import PortLease.Port

/-!
Sets of ports, one bit for each port, in 1024 words of 64 bits. The number of members is kept beside
the bits. `find?` walks the ports in cyclic order and steps over full words at once.
-/

namespace PortLease

structure PortSet where
  words : Vector (BitVec 64) 1024
  size : Nat

namespace PortSet

def empty : PortSet := ⟨Vector.replicate 1024 0#64, 0⟩

def wordOf (p : Port) : Fin 1024 := ⟨p.val / 64, by omega⟩

def bitOf (p : Port) : Nat := p.val % 64

def word (s : PortSet) (p : Port) : BitVec 64 := s.words[wordOf p]

def contains (s : PortSet) (p : Port) : Bool :=
  (s.word p).getLsbD (bitOf p)

def setBit : PortSet → Port → PortSet
  | ⟨words, size⟩, p =>
    ⟨words.set (wordOf p) (words[wordOf p] ||| BitVec.twoPow 64 (bitOf p)), size + 1⟩

def clearBit : PortSet → Port → PortSet
  | ⟨words, size⟩, p =>
    ⟨words.set (wordOf p) (words[wordOf p] &&& ~~~BitVec.twoPow 64 (bitOf p)), size - 1⟩

def insert? (s : PortSet) (p : Port) : Option PortSet :=
  if s.contains p then none else some (s.setBit p)

def erase? (s : PortSet) (p : Port) : Option PortSet :=
  if s.contains p then some (s.clearBit p) else none

def insert (s : PortSet) (p : Port) : PortSet := if s.contains p then s else s.setBit p

def erase (s : PortSet) (p : Port) : PortSet := if s.contains p then s.clearBit p else s

def ofList (ports : List Port) : PortSet := ports.foldl insert empty

def findFrom? (s : PortSet) (eligible : Port → Bool) (left : Nat) (p : Port) : Option Port :=
  if left = 0 then none
  else if bitOf p = 0 ∧ s.word p = BitVec.allOnes 64 then
    findFrom? s eligible (left - 64) (p + 64)
  else if !s.contains p && eligible p then some p
  else findFrom? s eligible (left - 1) (p + 1)
termination_by left

def find? (s : PortSet) (start : Port) (eligible : Port → Bool) : Option Port :=
  s.findFrom? eligible Port.count start

def membersOfWord (s : PortSet) (w : Fin 1024) : List Port :=
  if s.words[w] = 0#64 then []
  else (List.finRange 64).filterMap fun b =>
    if s.words[w].getLsbD b.val then some ⟨w.val * 64 + b.val, by omega⟩ else none

def toList (s : PortSet) : List Port :=
  (List.finRange 1024).flatMap s.membersOfWord

def debugText (s : PortSet) : String :=
  s!"PortBitmap \x7b count: {s.size} \x7d"

end PortSet

end PortLease
