import EntityScript.Config
import EntityScript.Suppression
import EntityScript.Toml.Decode

/-!
Settings and suppressions as files hold them.
-/

namespace EntityScript

open Toml (Data Entries)

/-- The first count that does not fit into 64 bits. -/
def wordLimit : Nat := Nat.pow 2 64

namespace Config

/-- The names of the settings in files, in order. -/
def fieldNames : List String :=
  ["event_queue_capacity", "event_drain_limit", "heartbeat_batch", "max_dispatch_depth", "rng_seed",
    "suppressions"]

/-- The settings that entries give; what they leave out stays as usual. -/
def ofEntries? (entries : Entries) : Option Config := do
  let usual : Config := {}
  let count := Data.natBelow? wordLimit
  let queueCapacity ← entries.orDefault? "event_queue_capacity" count usual.queueCapacity
  let drainLimit ← entries.orDefault? "event_drain_limit" count usual.drainLimit
  let heartbeatBatch ← entries.orDefault? "heartbeat_batch" count usual.heartbeatBatch
  let maxDepth ← entries.orDefault? "max_dispatch_depth" count usual.maxDepth
  let seed ← entries.optional? "rng_seed" count
  let suppressionFile ← entries.optional? "suppressions" Data.text?
  return { queueCapacity, drainLimit, heartbeatBatch, maxDepth,
           seed := seed.map UInt64.ofNat, suppressionFile }

/-- The settings that data give. -/
def ofData? (d : Data) : Option Config := (d.fields? fieldNames).bind ofEntries?

/-- The settings in the text of a file. -/
def ofText? (text : String) : Option Config := (Toml.read? text).bind ofEntries?

end Config

/-- The suppression that data give. -/
def Suppression.ofData? (d : Data) : Option Suppression := do
  let entries ← d.fields? ["script", "position", "token", "resume"]
  let script ← entries.required? "script" Data.text?
  let pos ← entries.required? "position" (Data.natBelow? wordLimit)
  let token ← entries.required? "token" Data.text?
  let resume ← entries.orDefault? "resume" Data.bool? false
  return { script, pos, token, resume }

/-- The suppressions in the text of a file. -/
def Suppressions.ofText? (text : String) : Option Suppressions := do
  let entries ← Toml.read? text
  let listed ← entries.orDefault? "suppress" (Data.listOf? Suppression.ofData?) []
  return .ofList listed

end EntityScript
