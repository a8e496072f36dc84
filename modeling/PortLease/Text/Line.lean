namespace PortLease.Text

def lineCons (c : Char) : List (List Char) → List (List Char)
  | [] => [[c]]
  | l :: ls => (c :: l) :: ls

def closedLines : List Char → List (List Char)
  | [] => []
  | c :: cs => if c = '\n' then ['\n'] :: closedLines cs else lineCons c (closedLines cs)

def dropLineEnd (line : List Char) : List Char :=
  match line.reverse with
  | '\n' :: '\r' :: rest => rest.reverse
  | '\n' :: rest => rest.reverse
  | _ => line

def lines (cs : List Char) : List (List Char) :=
  (closedLines cs).map dropLineEnd

end PortLease.Text
