import PortLease.Text.Blank

namespace PortLease

def yesWords : List String := ["true", "1", "yes", "on"]

def readFlag (cs : List Char) : Bool :=
  yesWords.contains (String.ofList (Text.asciiLower (Text.trim cs)))

end PortLease
