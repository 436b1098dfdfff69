import BulletScript.Value.Basic

/-! The settings of an engine. -/
namespace BulletScript

namespace Settings

structure Http where
  timeout : Float := 30
  userAgent : String := "tagscript/1.0"

structure Shell where
  enabled : Bool := true
  timeout : Float := 30
  maxOutput : Nat := 65536

structure Notifications where
  targets : List Record := []
  defaultDurationMs : Int := 4000

/-- What a connector does unless its script says otherwise. -/
structure Connector where
  errorFormat : String := "✗ "
  timestamps : Bool := false
  clearErrorsOnSuccess : Bool := false
  clearErrorsOnReset : Bool := false
  retry : Int := 0

def Connector.toRecord (c : Connector) : Record :=
  [("errorFormat", .str c.errorFormat), ("timestamps", .bool c.timestamps),
    ("clearErrorsOnSuccess", .bool c.clearErrorsOnSuccess),
    ("clearErrorsOnReset", .bool c.clearErrorsOnReset), ("retry", .int c.retry)]

end Settings

structure Settings where
  documentRoot : String
  scriptsFile : Option String := none
  indentUnit : String := "  "
  http : Settings.Http := {}
  shell : Settings.Shell := {}
  notifications : Settings.Notifications := {}
  connector : Settings.Connector := {}

end BulletScript
