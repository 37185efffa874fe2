import ScriptHost.Drill.BindingNames
import ScriptHost.Drill.PayloadNames
import ScriptHost.Drill.Pointers
import ScriptHost.Drill.Race
import ScriptHost.Session.Mask
import ScriptHost.Session.Run
import ScriptHost.Proofs.Signatures
import ScriptHost.Proofs.Frame
import ScriptHost.Proofs.Within
import ScriptHost.Proofs.Evaluation
import ScriptHost.Proofs.HostProgram
import ScriptHost.Proofs.Step
import ScriptHost.Proofs.Roster
import ScriptHost.Proofs.Books
import ScriptHost.Proofs.Moves
import ScriptHost.Proofs.Deeds
import ScriptHost.Proofs.Access
import ScriptHost.Proofs.Operations
import ScriptHost.Proofs.Regime
import ScriptHost.Proofs.Callbacks
import ScriptHost.Proofs.Collection
import ScriptHost.Proofs.Disposal
import ScriptHost.Proofs.Programs
import ScriptHost.Proofs.Calls
import ScriptHost.Proofs.Handles
import ScriptHost.Proofs.Blocks
import ScriptHost.Proofs.Tracking
import ScriptHost.Proofs.Isolation
import ScriptHost.Proofs.Bounded
import ScriptHost.Proofs.Whole
import ScriptHost.Proofs.Guards
import ScriptHost.Proofs.Pins
import ScriptHost.Proofs.Retention
import ScriptHost.Proofs.Pairing
import ScriptHost.Proofs.Compilation
import ScriptHost.Proofs.Lasting
import ScriptHost.Proofs.Tending
import ScriptHost.Proofs.Encoding
import ScriptHost.Proofs.Alarms
import ScriptHost.Proofs.Failures
import ScriptHost.Proofs.Names
import ScriptHost.Proofs.Balance
import ScriptHost.Proofs.Fates
import ScriptHost.Proofs.Keeping
import ScriptHost.Proofs.Imports
import ScriptHost.Proofs.Registrations
import ScriptHost.Proofs.Numbering
import ScriptHost.Proofs.Presence
import ScriptHost.Proofs.Reports
import ScriptHost.Proofs.Splitting
import ScriptHost.Proofs.Ledger
import ScriptHost.Proofs.Literals
import ScriptHost.Proofs.Recovery
import ScriptHost.Proofs.Results
import ScriptHost.Proofs.Requests
import ScriptHost.Proofs.Aborts
import ScriptHost.Proofs.Payloads
import ScriptHost.Proofs.Sequences
import ScriptHost.Proofs.Maps
import ScriptHost.Proofs.Printing
import ScriptHost.Proofs.ModuleNames
import ScriptHost.Proofs.Locations
import ScriptHost.Proofs.Traces
import ScriptHost.Proofs.Matching
import ScriptHost.Proofs.Joint
import ScriptHost.Proofs.Abreast
import ScriptHost.Proofs.Losses
import ScriptHost.Proofs.Blind
import ScriptHost.Proofs.Likewise
import ScriptHost.Proofs.Destinations
import ScriptHost.Proofs.Scalars
import ScriptHost.Proofs.Turns
import ScriptHost.Proofs.Progress
import ScriptHost.Proofs.Tokenwise
import ScriptHost.Proofs.Outcomes
import ScriptHost.Proofs.Blame
import ScriptHost.Proofs.Interspersed
