import LineScript.Main
import LineScript.Proofs.Nesting
import LineScript.Proofs.Alternatives
import LineScript.Proofs.JumpLimit
import LineScript.Proofs.VariableNames
import LineScript.Proofs.WindowIds
import LineScript.Proofs.PackageMain
import LineScript.Proofs.Silence
import LineScript.Proofs.StoreNames
import LineScript.Proofs.WordSpacing
import LineScript.Proofs.WriteRead
import LineScript.Proofs.ImportFailure
import LineScript.Proofs.AssignmentFailure
import LineScript.Proofs.ArgumentValues
import LineScript.Proofs.PackageUpdate
import LineScript.Proofs.TypedText
import LineScript.Proofs.ArrayLiterals
import LineScript.Proofs.LoopRounds
import LineScript.Proofs.FileCoding
import LineScript.Proofs.Updates
