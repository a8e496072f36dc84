import PortLease.Port

namespace PortLease.CommandLine

inductive Task where
  | range
  | netstat (port : Option Port) (format : String)
  | check (number : Int)
  | reserve (count : Int) (hold : Bool)
  deriving DecidableEq, Repr

structure Invocation where
  settingsFile : Option String
  verbose : Bool
  task : Task
  deriving DecidableEq, Repr

inductive Subcommand where
  | range
  | netstat
  | check
  | reserve
  deriving DecidableEq, Repr

inductive Topic where
  | program
  | subcommand (name : Subcommand)
  | help
  deriving DecidableEq, Repr

inductive Request where
  | run (invocation : Invocation)
  | help (topic : Topic)
  | version
  | refused
  deriving DecidableEq, Repr

def subcommand? : String → Option Subcommand
  | "range" => some .range
  | "netstat" => some .netstat
  | "check" => some .check
  | "reserve" => some .reserve
  | _ => none

end PortLease.CommandLine
