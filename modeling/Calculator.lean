import Calculator.Main
import Calculator.Proofs.Command.Prompt
import Calculator.Proofs.Earliest
import Calculator.Proofs.Effort
import Calculator.Proofs.ExactValue
import Calculator.Proofs.Interruption
import Calculator.Proofs.Listing
import Calculator.Proofs.Places
import Calculator.Proofs.Printing
import Calculator.Proofs.Readback
import Calculator.Proofs.Substitution
