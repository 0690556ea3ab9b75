import EntityScript.Scene.Json
import EntityScript.Scene.Running

/-!
What is reported about a scene that ran.
-/

namespace EntityScript.Scene

/-- The summary of a run. -/
structure Report where
  ticks : Nat
  clockMillis : Nat
  entities : Nat
  timers : Nat
  queuedEvents : Nat
  droppedEvents : Nat
  /-- The global variables, ordered by name. -/
  globals : List (String × Value)

/-- The summary of a running scene. -/
def Running.report (r : Running) : Report :=
  let w := r.engine.session.world
  { ticks := r.ticks, clockMillis := w.clock.millis, entities := w.entities.size
    timers := w.timers.size, queuedEvents := w.queue.size, droppedEvents := w.queue.dropped
    globals := w.globals.snapshot .global }

/-- A value in a report. -/
def jsonOfValue : Value → Json
  | .text s => .text s
  | .int n => .int n.toInt
  | .float x => .float x

/-- The report as JSON. -/
def Report.json (r : Report) : Json := .object [
  ("ticks", .int r.ticks), ("clock_ms", .int r.clockMillis), ("entities", .int r.entities),
  ("timers", .int r.timers), ("queued_events", .int r.queuedEvents),
  ("dropped_events", .int r.droppedEvents),
  ("globals", .object (r.globals.map fun (name, v) => (name, jsonOfValue v)))]

end EntityScript.Scene
