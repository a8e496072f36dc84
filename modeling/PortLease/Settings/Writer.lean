import PortLease.Settings
import PortLease.Yaml.Writer

namespace PortLease

def PortRange.outline (r : PortRange) : Yaml.Outline :=
  .mapping [("start", .nat r.start.val), ("end", .nat r.stop.val)]

namespace Settings

def toJson (s : Settings) : Json :=
  .object [
    ("disableReleaseCheck".toList, .bool s.disableReleaseCheck),
    ("probeBind".toList, .bool s.probeBind),
    ("ephemeralRange".toList, .optional PortRange.toJson s.ephemeralRange),
    ("lsofPath".toList, .optional Json.str s.lsofPath)]

def toYaml (s : Settings) : List Char :=
  Yaml.Outline.mappingText [
    ("disableReleaseCheck", .bool s.disableReleaseCheck),
    ("probeBind", .bool s.probeBind),
    ("ephemeralRange", .optional PortRange.outline s.ephemeralRange),
    ("lsofPath", .optional (fun path => .text path.toList) s.lsofPath)]

end Settings

end PortLease
