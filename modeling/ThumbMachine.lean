import ThumbMachine.Condition
import ThumbMachine.Shifter
import ThumbMachine.Fault
import ThumbMachine.RegisterFile
import ThumbMachine.Memory.Basic
import ThumbMachine.Instruction.Decode
import ThumbMachine.Instruction.Assembly
import ThumbMachine.Instruction.Outline
import ThumbMachine.Core.Execute
import ThumbMachine.Processor.Basic
import ThumbMachine.Memory.Command
import ThumbMachine.Host.Script
import ThumbMachine.Stored.Form
import ThumbMachine.Proofs.Slicing
import ThumbMachine.Proofs.Charging
import ThumbMachine.Proofs.Alignment
import ThumbMachine.Proofs.Gateway
import ThumbMachine.Proofs.Accounting
import ThumbMachine.Proofs.AddressSpace
import ThumbMachine.Proofs.Snapshot
import ThumbMachine.Proofs.Faults
import ThumbMachine.Proofs.Framing
import ThumbMachine.Proofs.Remapping
import ThumbMachine.Proofs.Bounds
import ThumbMachine.Proofs.RegionTable
import ThumbMachine.Proofs.ByteMap
import ThumbMachine.Proofs.MappingOrder
import ThumbMachine.Proofs.RecentWords
import ThumbMachine.Proofs.Confinement
import ThumbMachine.Proofs.ControlBits
import ThumbMachine.Proofs.Checked.Running
import ThumbMachine.Proofs.SerialShifter
import ThumbMachine.Proofs.SignExtension
import ThumbMachine.Proofs.Capacity
import ThumbMachine.Proofs.Comparisons
import ThumbMachine.Proofs.MultiWord
import ThumbMachine.Proofs.ListTransfers
import ThumbMachine.Proofs.StackFrames
import ThumbMachine.Proofs.LongCalls
import ThumbMachine.Proofs.TransferFormats
import ThumbMachine.Proofs.Footprint
import ThumbMachine.Proofs.StoreThenLoad
import ThumbMachine.Proofs.AssemblyReading
import ThumbMachine.Proofs.Disassembly
import ThumbMachine.Proofs.Noninterference
