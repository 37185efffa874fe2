import ScriptHost.Session.Functions

/-!
# Running a session

A session begins with a service and, unless it is bare, with a machine of it that has listeners for
output and diagnostics.  Every step gives one record.  A panic ends its step alone; the end of the
process ends the session.
-/

namespace ScriptHost.Session

open Bridge

/-- A session as it is given. -/
structure Script where
  steps : List Step
  isBare : Bool
  logLevel? : Option LogLevel

/-- Where the addresses of a session begin. -/
def addressBase : Address := 0x550000000000

/-- The distance of addresses that follow each other. -/
def addressStep : Address := 16

/-- Addresses in increasing order, so that none is ever used again. -/
def ascending : Placement where
  place serial taken := max (addressBase + addressStep * serial) (greatest taken + addressStep)
  place_pos serial taken := by
    have : 0 < addressStep := by decide
    exact Nat.lt_of_lt_of_le this (Nat.le_trans (Nat.le_add_left _ _) (Nat.le_max_right _ _))
  place_fresh serial taken h := by
    have h₂ : greatest taken + addressStep ≤ greatest taken :=
      Nat.le_trans (Nat.le_max_right (addressBase + addressStep * serial) _) (le_greatest h)
    exact absurd h₂ (Nat.not_le.2 (Nat.lt_add_of_pos_right (by decide)))

/-- How deep runs may nest in a session. -/
def nesting : Nat := 100000

/-- The steps that every session begins with. -/
def setup (isBare : Bool) : List Action :=
  if isBare then [.bridge defaultBridge]
  else
    [.bridge defaultBridge,
      .vm defaultVm none { VmConfig.unset with policy? := some .forceRelease },
      .onWrite none [], .onError none []]

/-- Performs actions without recording anything. -/
def prepare (e : Engine Session) : List Action → World Session → World Session
  | [], w => { w with host := { w.host with events := [] } }
  | a :: rest, w => prepare e rest (perform e none a w).2

/-- The events since the last record, in order, and the world in which they are recorded. -/
def takeEvents (w : World Session) : List Event × World Session :=
  (w.host.events.reverse, { w with host := { w.host with events := [] } })

/-- What is said when runs nest too deep. -/
def exhaustedMessage : String := "runs are nested too deep"

/-- How a step ended, and whether the session goes on. -/
def endingOf : Outcome HostError Answer → Ending × Bool
  | .value a => (.answered a, true)
  | .fault e => (.failed e, true)
  | .halt (.panic message) => (.panicked message, true)
  | .halt (.fatal message) => (.aborted message, false)
  | .halt .exhausted => (.aborted exhaustedMessage, false)

/-- Performs steps and records them. -/
def runSteps (e : Engine Session) : List Step → World Session → List Record × World Session
  | [], w => ([], w)
  | s :: rest, w =>
    let (outcome, w) := perform e none s.action w
    let (events, w) := takeEvents w
    let (ending, goesOn) := endingOf outcome
    if goesOn then
      let (entries, w) := runSteps e rest w
      (⟨ending, events⟩ :: entries, w)
    else ([⟨ending, events⟩], w)

/-- The world in which a session begins. -/
def initialWorld (names : TypeNames) (s : Script) (e : Engine Session) : World Session :=
  prepare e (setup s.isBare) (.empty names ascending (.empty s.logLevel?))

/-- Runs a session. -/
def Script.run (s : Script) (names : TypeNames) : List Record × World Session :=
  let e := engine nesting
  runSteps e s.steps (initialWorld names s e)

end ScriptHost.Session
