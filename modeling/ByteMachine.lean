import ByteMachine.Files.Tree
import ByteMachine.Main
import ByteMachine.Proofs.CommandLine.Checking
import ByteMachine.Proofs.CommandLine.Reporting
import ByteMachine.Proofs.Disassembly.Agreement
import ByteMachine.Proofs.Faults
import ByteMachine.Proofs.Machine.Absorbing
import ByteMachine.Proofs.Machine.Atomicity
import ByteMachine.Proofs.Machine.CycleLimit
import ByteMachine.Proofs.Machine.Frame
import ByteMachine.Proofs.Machine.Iteration
import ByteMachine.Proofs.Machine.JumpModes
import ByteMachine.Proofs.Machine.LimitedSinks
import ByteMachine.Proofs.Machine.Overflow
import ByteMachine.Proofs.Machine.Reconfigured
import ByteMachine.Proofs.Machine.Subroutine
import ByteMachine.Proofs.Machine.Texts
import ByteMachine.Proofs.Machine.Tracing
import ByteMachine.Proofs.Machine.Written
import ByteMachine.Proofs.Program.Misfit
import ByteMachine.Proofs.Program.SourceLines
import ByteMachine.Proofs.Machine.Footprint
import ByteMachine.Proofs.Machine.LineLength
import ByteMachine.Proofs.Program.Joined
import ByteMachine.Proofs.Disassembly.Partition
import ByteMachine.Proofs.Disassembly.Assembler
import ByteMachine.Proofs.Disassembly.Boundaries
import ByteMachine.Proofs.Machine.Comparisons
import ByteMachine.Proofs.CommandLine.Configuring
import ByteMachine.Proofs.CommandLine.Positions
import ByteMachine.Proofs.Config.Members
import ByteMachine.Proofs.Snapshot.Written
import ByteMachine.Proofs.CommandLine.ByteLiteral
import ByteMachine.Proofs.Machine.Guarded
import ByteMachine.Proofs.Machine.TraceLine
