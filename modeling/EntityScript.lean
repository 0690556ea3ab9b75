import EntityScript.Main
import EntityScript.Proofs.Account
import EntityScript.Proofs.AssignedText
import EntityScript.Proofs.BlockComments
import EntityScript.Proofs.BlockDepth
import EntityScript.Proofs.Blocks
import EntityScript.Proofs.Boundaries
import EntityScript.Proofs.Broadcast
import EntityScript.Proofs.CatchUp
import EntityScript.Proofs.ConditionStop
import EntityScript.Proofs.DefaultNames
import EntityScript.Proofs.Departure
import EntityScript.Proofs.Depth
import EntityScript.Proofs.DryRun
import EntityScript.Proofs.Ending
import EntityScript.Proofs.EventNames
import EntityScript.Proofs.Heartbeat
import EntityScript.Proofs.IntegerVariables
import EntityScript.Proofs.Isolation
import EntityScript.Proofs.Labels
import EntityScript.Proofs.Muting
import EntityScript.Proofs.NumberWords
import EntityScript.Proofs.OneLineIf
import EntityScript.Proofs.Ownership
import EntityScript.Proofs.ParameterText
import EntityScript.Proofs.Positions
import EntityScript.Proofs.PrintedIntegers
import EntityScript.Proofs.QuotedText
import EntityScript.Proofs.Requests
import EntityScript.Proofs.RespelledRuns
import EntityScript.Proofs.ResumePoints
import EntityScript.Proofs.Roster
import EntityScript.Proofs.Rotation
import EntityScript.Proofs.Schedule
import EntityScript.Proofs.ShortCircuit
import EntityScript.Proofs.SingleLine
import EntityScript.Proofs.Snapshot
import EntityScript.Proofs.StrayMarks
import EntityScript.Proofs.Subroutine
import EntityScript.Proofs.Timeline
import EntityScript.Proofs.WrittenWords
