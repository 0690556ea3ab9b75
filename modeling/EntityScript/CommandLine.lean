import EntityScript.Scene.Report

/-!
The command line: it runs a scene file for a number of ticks and gives a report. Options may stand in
any order, each at most once, with their value as the next argument or behind an equals sign.
-/

namespace EntityScript.CommandLine

open Scene

/-- What the arguments ask for. -/
structure Options where
  scene : String
  ticks : Nat
  dtMillis : Nat
  seed : Option UInt64
  /-- Send the events that begin the life of each entity. -/
  init : Bool
  /-- The file for the report, in place of the standard output. -/
  output : Option String
  deriving DecidableEq, Repr

/-- The arguments read so far. -/
structure Given where
  scene : Option String := none
  ticks : Option Nat := none
  dtMillis : Option Nat := none
  seed : Option Nat := none
  noInit : Option Unit := none
  output : Option String := none

/-- Gives a value to an option that has none yet. -/
def once {α : Type} (old : Option α) (new : Option α) : Option (Option α) :=
  if old.isSome then none else new.map some

/-- The number below a bound that an argument spells; a plus sign may stand in front. -/
def numberBelow? (bound : Nat) (arg : String) : Option Nat :=
  (Text.natural? arg.toList).filter (· < bound)

/-- The same for a number that is read with either sign; only a zero may be negative. -/
def signedNumberBelow? (bound : Nat) (arg : String) : Option Nat :=
  match arg.toList with
  | '-' :: ds => if !ds.isEmpty && ds.all (· = '0') then some 0 else none
  | _ => numberBelow? bound arg

/-- A text that is not empty. -/
def nonEmpty? (arg : String) : Option String := if arg = "" then none else some arg

/-- The options that take a value. -/
inductive Valued where
  | ticks
  | dtMillis
  | seed
  | output
  deriving DecidableEq, Repr

/-- The option of a name. -/
def Valued.ofName? (name : String) : Option Valued :=
  if name = "--ticks" then some .ticks
  else if name = "--dt-ms" then some .dtMillis
  else if name = "--seed" then some .seed
  else if name = "--output" then some .output
  else none

/-- Gives its value to an option. -/
def Given.setOption (p : Given) (option : Valued) (arg : String) : Option Given :=
  match option with
  | .ticks => (once p.ticks (signedNumberBelow? (Nat.pow 2 32) arg)).map ({ p with ticks := · })
  | .dtMillis => (once p.dtMillis (numberBelow? (Nat.pow 2 64) arg)).map ({ p with dtMillis := · })
  | .seed => (once p.seed (numberBelow? (Nat.pow 2 64) arg)).map ({ p with seed := · })
  | .output => (once p.output (nonEmpty? arg)).map ({ p with output := · })

/-- Takes an argument as the scene file. -/
def Given.setScene (p : Given) (arg : String) : Option Given :=
  (once p.scene (nonEmpty? arg)).map ({ p with scene := · })

/-- Whether an argument is written as an option. -/
def looksLikeOption (arg : String) : Bool :=
  match arg.toList with
  | '-' :: _ :: _ => true
  | _ => false

/-- Splits an argument at its first equals sign. -/
def splitAtEquals (arg : String) : String × Option String :=
  let name := arg.toList.takeWhile (· ≠ '=')
  match arg.toList.drop name.length with
  | _ :: value => (String.ofList name, some (String.ofList value))
  | [] => (arg, none)

/-- Reads arguments; behind two hyphens on their own there are no more options. -/
def readArguments (p : Given) : List String → Option Given
  | [] => some p
  | arg :: args =>
    if arg = "--" then args.foldlM Given.setScene p
    else if arg = "--no-init" then do
      let noInit ← once p.noInit (some ())
      readArguments { p with noInit } args
    else if looksLikeOption arg then
      match splitAtEquals arg with
      | (name, some value) => do
        let p ← p.setOption (← Valued.ofName? name) value
        readArguments p args
      | (name, none) =>
        match args with
        | [] => none
        | value :: args =>
          if looksLikeOption value then none
          else do
            let p ← p.setOption (← Valued.ofName? name) value
            readArguments p args
    else do
      let p ← p.setScene arg
      readArguments p args

/-- The options that arguments give, if they are well formed. -/
def Options.parse? (args : List String) : Option Options := do
  let p ← readArguments {} args
  let scene ← p.scene
  return {
    scene, ticks := p.ticks.getD 60, dtMillis := p.dtMillis.getD 16
    seed := p.seed.map UInt64.ofNat, init := p.noInit.isNone, output := p.output }

/-- Why a run gives no report. -/
inductive Failure where
  | scene (e : SceneError)
  | halted (h : Halt)
  deriving DecidableEq, Repr

/-- The failure in words. -/
def Failure.message : Failure → String
  | .scene e => e.message
  | .halted (.fault .outsideText) => "text was read at an offset inside a character or behind its end"
  | .halted (.fault .unboundedDraw) => "a random number needs a finite bound"
  | .halted (.fault .timeOverflow) => "a sum of times does not fit"
  | .halted .outOfFuel => "the steps ran out"

/-- The exit status of a failure: errors of a scene are expected, a halt is not. -/
def Failure.status : Failure → UInt8
  | .scene _ => 1
  | .halted _ => 101

/-- The exit status of bad usage. -/
def usageStatus : UInt8 := 2

/-- The scene that the options ask for, with the seed that overrides its own. -/
def Options.definition (o : Options) (read : String → Option String) :
    Except Failure Definition := do
  match read o.scene with
  | none => throw (.scene (.unreadable o.scene))
  | some text =>
    match Definition.ofText? text with
    | none => throw (.scene .malformedScene)
    | some d => return { d with config := { d.config with seed := o.seed <|> d.config.seed } }

/-- The files of the scene, by the directory of its own. -/
def Options.library (o : Options) (read : String → Option String) : Library :=
  ⟨parentPath o.scene, read⟩

/-- Turns the error of a scene or of its run into a failure. -/
def failing {ε α : Type} (f : ε → Failure) : Except ε α → Except Failure α
  | .ok a => .ok a
  | .error e => .error (f e)

/-- Runs a scene as the options ask. -/
def Options.run (o : Options) (d : Definition) (read : String → Option String) (fuel : Nat) :
    Except Failure Running := do
  let r ← failing .scene (d.start (o.library read) .silent)
  let r ← if o.init then failing .halted (r.init fuel) else pure r
  failing .halted (r.run fuel o.ticks (.ofMillis o.dtMillis))

/-- The report text of a run. -/
def Options.report (o : Options) (read : String → Option String) (fuel : Nat) :
    Except Failure String := do
  let d ← o.definition read
  let r ← o.run d read fuel
  return r.report.json.pretty 0

end EntityScript.CommandLine
