import PortLease.Yaml.Character

namespace PortLease.Yaml

def foldBreaks : List Char → List Char
  | '\n' :: [] => [' ']
  | '\n' :: more => more
  | breaks => breaks

def foldGap (gap : List Char) : List Char :=
  if gap.any isBreak then foldBreaks (gap.filter isBreak) else gap

end PortLease.Yaml
