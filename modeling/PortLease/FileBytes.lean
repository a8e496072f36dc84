import PortLease.Text.Utf8

namespace PortLease

abbrev FileBytes := Except String (List UInt8)

namespace FileBytes

def missing : FileBytes := .error "No such file or directory (os error 2)"

def text : FileBytes → Except String (List Char)
  | .error why => .error why
  | .ok bytes =>
    match Text.Utf8.decode? bytes with
    | some text => .ok text
    | none => .error "stream did not contain valid UTF-8"

end FileBytes

end PortLease
