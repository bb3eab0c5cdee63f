import Engram.Config
import Engram.Number.Fixed

/-!
The conditions under which a background cycle may run. All of them must hold at once; a closed gate
names every condition that does not.
-/

namespace Engram

/-- A reading of the device. -/
structure DeviceState where
  charging : Bool
  battery : Float
  idle : Time.Span
  freeMemory : Float
  hour : Nat

inductive CycleKind where
  /-- Training on recent context. -/
  | light
  /-- The full nightly run. -/
  | nightly
  deriving DecidableEq, Repr

namespace CycleKind

def all : List CycleKind := [.light, .nightly]

def name : CycleKind → String
  | .light => "light"
  | .nightly => "nightly"

def ofName? (s : String) : Option CycleKind :=
  all.find? (·.name == s)

instance : Json.Codec CycleKind where
  encode k := .str k.name
  decode room document := (Json.decodeName room document).bind ofName?

end CycleKind

/-- A condition that does not hold. -/
inductive Violation where
  | notCharging
  | batteryLow (level threshold : Float)
  | outsideWindow (hour start stop : Nat)
  | notIdle (idle required : Time.Span)
  | lowMemory (ratio threshold : Float)

def Violation.message : Violation → String
  | .notCharging => "device not charging"
  | .batteryLow level threshold =>
    "battery " ++ Number.fixed 2 level ++ " below " ++ Number.fixed 2 threshold
  | .outsideWindow hour start stop =>
    let clock (h : Nat) : String := Number.padded 2 h ++ ":00"
    "hour " ++ toString hour ++ " outside night window " ++ clock start ++ "-" ++ clock stop
  | .notIdle idle required =>
    "idle " ++ toString idle.minutes ++ "m, need " ++ toString required.minutes ++ "m"
  | .lowMemory ratio threshold =>
    "free memory " ++ Number.fixed 2 ratio ++ " below " ++ Number.fixed 2 threshold

namespace Gate

/-- A violation, if its condition fails. -/
def check (holds : Bool) (violation : Violation) : List Violation :=
  if holds then [] else [violation]

/-- What keeps a light cycle from running, given the idle time it asks for. -/
def lightViolations (c : BackgroundConfig) (required : Time.Span) (d : DeviceState) :
    List Violation :=
  check (d.charging || !(d.battery < c.batteryThreshold))
      (.batteryLow d.battery c.batteryThreshold)
    ++ check (required.nanos ≤ d.idle.nanos) (.notIdle d.idle required)
    ++ check (!(d.freeMemory < c.freeMemoryRatio)) (.lowMemory d.freeMemory c.freeMemoryRatio)

/-- What keeps a nightly cycle from running, given the idle time it asks for. -/
def nightlyViolations (c : NightlyConfig) (required : Time.Span) (d : DeviceState) :
    List Violation :=
  check d.charging .notCharging
    ++ check (c.inWindow d.hour) (.outsideWindow d.hour c.windowStart.val c.windowEnd.val)
    ++ check (required.nanos ≤ d.idle.nanos) (.notIdle d.idle required)
    ++ check (!(d.freeMemory < c.freeMemoryRatio)) (.lowMemory d.freeMemory c.freeMemoryRatio)

/-- What keeps a cycle from running on a device. There is no answer if the configured idle time is
not a length of time. -/
def violations (c : Config) (kind : CycleKind) (d : DeviceState) : Except Error (List Violation) :=
  match kind with
  | .light =>
    match c.background.idleThreshold? with
    | some required => .ok (lightViolations c.background required d)
    | none => .error .undefined
  | .nightly =>
    match c.nightly.idleThreshold? with
    | some required => .ok (nightlyViolations c.nightly required d)
    | none => .error .undefined

/-- Whether a cycle may run. -/
def isOpen (c : Config) (kind : CycleKind) (d : DeviceState) : Bool :=
  match violations c kind d with
  | .ok [] => true
  | _ => false

end Gate

end Engram
