import PortLease.Main
import PortLease.Settings.Reader
import PortLease.Settings.Writer
import PortLease.Ephemeral.DynamicPort
import PortLease.Proofs.PortSet
import PortLease.Proofs.PortSet.Search
import PortLease.Proofs.Pool
import PortLease.Proofs.Pool.Grant
import PortLease.Proofs.Pool.Room
import PortLease.Proofs.Pool.FirstFree
import PortLease.Proofs.Pool.Batch
import PortLease.Proofs.Script.References
import PortLease.Proofs.Script.Deed
import PortLease.Proofs.Script.Occupancy
import PortLease.Proofs.Pool.Map
import PortLease.Proofs.Script.Advisory
import PortLease.Proofs.Script.HookOrder
import PortLease.Proofs.Socket.Endpoint
import PortLease.Proofs.Socket.Listing
import PortLease.Proofs.Socket.Reading
import PortLease.Proofs.Socket.Refusal
import PortLease.Proofs.Script.LifeCycle
import PortLease.Proofs.Script.Verdict
import PortLease.Proofs.Script.Verification
import PortLease.Proofs.Text.ByteLines
import PortLease.Proofs.Text.Utf8
import PortLease.Proofs.Text.OutputLines
import PortLease.Proofs.Text.Words
import PortLease.Proofs.Socket.Listeners
import PortLease.Proofs.PortTable
import PortLease.Proofs.Script.LeakReport
import PortLease.Proofs.Threads.Call
import PortLease.Proofs.Threads.Change
import PortLease.Proofs.Threads.Ledger
import PortLease.Proofs.Threads.Holders
import PortLease.Proofs.Threads.Own
import PortLease.Proofs.Threads.Exclusive
import PortLease.Proofs.Threads.Alone
import PortLease.Proofs.Policy
import PortLease.Proofs.Pool.ScanOrder
import PortLease.Proofs.Pool.Audit
import PortLease.Proofs.Script.AuditTrail
import PortLease.Proofs.Threads.Hooks.Call
import PortLease.Proofs.Threads.Hooks.Act
import PortLease.Proofs.Threads.Hooks.Plain
import PortLease.Proofs.Threads.Hooks.Account
import PortLease.Proofs.Threads.Hooks.Change
import PortLease.Proofs.Threads.Hooks.Once
import PortLease.Proofs.Threads.Hooks.OwnLease
import PortLease.Proofs.Threads.Hooks.Alone
import PortLease.Proofs.Script.AnyPort
import PortLease.Proofs.Script.ManyPorts
import PortLease.Proofs.PortSet.FiniteSet
import PortLease.Proofs.Pool.Capacity
import PortLease.Proofs.Script.GivenPort
import PortLease.Proofs.Script.CloseOutcome
import PortLease.Proofs.Ephemeral
import PortLease.Proofs.Ephemeral.DynamicPort
import PortLease.Proofs.Socket.State
import PortLease.Proofs.Yaml.Cursor
import PortLease.Proofs.Yaml.Scalar.Plain
import PortLease.Proofs.Yaml.Scalar.Quoted
import PortLease.Proofs.Yaml.Scalar.Block
import PortLease.Proofs.Yaml.Token
import PortLease.Proofs.Yaml.Scalar
import PortLease.Proofs.Yaml.Outline
import PortLease.Proofs.Yaml.Node
import PortLease.Proofs.Yaml.Legible
import PortLease.Proofs.Yaml.CoreSchema
import PortLease.Proofs.Yaml.Decode
import PortLease.Proofs.Settings
import PortLease.Proofs.Settings.Flag
