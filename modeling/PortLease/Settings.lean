import PortLease.Policy
import PortLease.Settings.Flag
import PortLease.Text.Utf8

namespace PortLease

structure Settings where
  disableReleaseCheck : Bool := false
  /-- From the environment alone; no file can say it. -/
  envDisableReleaseCheck : Bool := false
  probeBind : Bool := true
  ephemeralRange : Option PortRange := none
  lsofPath : Option String := none
  deriving DecidableEq, Repr

namespace Settings

def environmentVariable : String := "CKP_DISABLE_PORT_RELEASE_CHECK"

abbrev Variable := Option (List UInt8)

def Variable.isYes (value : Variable) : Bool :=
  match value.bind Text.Utf8.decode? with
  | some text => readFlag text
  | none => false

def withEnvironment (s : Settings) (value : Variable) : Settings :=
  { s with envDisableReleaseCheck := value.isYes }

def ofEnvironment (value : Variable) : Settings := withEnvironment {} value

def releaseCheckDisabled (s : Settings) : Bool :=
  s.disableReleaseCheck || s.envDisableReleaseCheck

def policy (s : Settings) (excluded : PortRange) : Policy where
  excluded := excluded
  probeBind := s.probeBind
  checkRelease := !s.releaseCheckDisabled

def tableProgram (s : Settings) : String := s.lsofPath.getD "lsof"

end Settings

end PortLease
