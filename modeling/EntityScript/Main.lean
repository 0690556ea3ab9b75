import EntityScript.CommandLine

/-!
The program: reads a scene and its files, runs the scene and prints the report, or writes it to a
file. Log lines and errors go to the standard error.
-/

open EntityScript EntityScript.CommandLine

/-- The text of a file, if it can be read. -/
def readText (path : String) : IO (Option String) :=
  try some <$> IO.FS.readFile path catch _ => return none

/-- The texts of the files that can be read. -/
def readTexts (paths : List String) : IO (List (String × String)) :=
  paths.filterMapM fun path => return (← readText path).map fun text => (path, text)

/-- The text of a path among texts that were read. -/
def textIn (texts : List (String × String)) (path : String) : Option String := texts.lookup path

/-- Tells why there is no report. -/
def reportFailure (f : Failure) : IO UInt32 := do
  IO.eprintln f.message
  return f.status.toUInt32

/-- Writes the report where the options ask for it. -/
def writeReport (o : Options) (report : String) : IO UInt32 := do
  match o.output with
  | none =>
    IO.println report
    return 0
  | some path =>
    try
      IO.FS.writeFile path report
      return 0
    catch e =>
      IO.eprintln (toString e)
      return 1

/-- More steps than any run needs. -/
def stepAllowance : Nat := Nat.pow 2 62

/-- Runs the program with its arguments. -/
def main (args : List String) : IO UInt32 := do
  match Options.parse? args with
  | none =>
    IO.eprintln "usage: ioscript SCENE [--ticks N] [--dt-ms N] [--seed N] [--no-init] [--output FILE]"
    return usageStatus.toUInt32
  | some o =>
    let scene ← readTexts [o.scene]
    match o.definition (textIn scene) with
    | .error f => reportFailure f
    | .ok d =>
      let texts ← readTexts (d.files.map (Scene.joinPath (o.library (textIn scene)).base))
      match o.run d (textIn texts) stepAllowance with
      | .error f => reportFailure f
      | .ok r =>
        for line in r.engine.session.log do
          if line.level.rank ≤ Level.info.rank then IO.eprintln line.shown
        writeReport o (r.report.json.pretty 0)
