import LavMachine.Inspect
import LavMachine.Main
import LavMachine.Proofs.Agreement
import LavMachine.Proofs.Console
import LavMachine.Proofs.Disk.Backing
import LavMachine.Proofs.Disk.Calls
import LavMachine.Proofs.Disk.Handles
import LavMachine.Proofs.Disk.Sandbox
import LavMachine.Proofs.Disk.Transfer
import LavMachine.Proofs.Format
import LavMachine.Proofs.Image
import LavMachine.Proofs.Image.Fetches
import LavMachine.Proofs.Keyboard
import LavMachine.Proofs.Machine.Access
import LavMachine.Proofs.Machine.Batch
import LavMachine.Proofs.Machine.Cancellation
import LavMachine.Proofs.Machine.Command
import LavMachine.Proofs.Machine.Composed
import LavMachine.Proofs.Machine.DataInit
import LavMachine.Proofs.Machine.Entry
import LavMachine.Proofs.Machine.Expression
import LavMachine.Proofs.Machine.Footprint
import LavMachine.Proofs.Machine.Frames
import LavMachine.Proofs.Machine.Freshness
import LavMachine.Proofs.Machine.Immediate
import LavMachine.Proofs.Machine.Instruction
import LavMachine.Proofs.Machine.Invocation
import LavMachine.Proofs.Machine.Isolation
import LavMachine.Proofs.Machine.Kept
import LavMachine.Proofs.Machine.Lifecycle
import LavMachine.Proofs.Machine.Location
import LavMachine.Proofs.Machine.Painting
import LavMachine.Proofs.Machine.Picker
import LavMachine.Proofs.Machine.References
import LavMachine.Proofs.Machine.Refusal
import LavMachine.Proofs.Machine.Representation
import LavMachine.Proofs.Machine.Signature
import LavMachine.Proofs.Machine.Sprintf
import LavMachine.Proofs.Machine.Stable
import LavMachine.Proofs.Machine.Windows
import LavMachine.Proofs.Memory.Cells
import LavMachine.Proofs.Memory.Cipher
import LavMachine.Proofs.Memory.Copy
import LavMachine.Proofs.Memory.Flat
import LavMachine.Proofs.Memory.Footprint
import LavMachine.Proofs.Memory.Install
import LavMachine.Proofs.Memory.Literals
import LavMachine.Proofs.Memory.Placement
import LavMachine.Proofs.Memory.Search
import LavMachine.Proofs.Memory.Shape
import LavMachine.Proofs.Memory.Strings
import LavMachine.Proofs.Memory.Writes
import LavMachine.Proofs.Random
import LavMachine.Proofs.Reference
import LavMachine.Proofs.Screen.Addressing
import LavMachine.Proofs.Screen.Effect
import LavMachine.Proofs.Screen.Labels
import LavMachine.Proofs.Screen.Line
import LavMachine.Proofs.Screen.Pixels
import LavMachine.Proofs.Screen.Rectangle
import LavMachine.Proofs.Screen.Region
import LavMachine.Proofs.Stack
import LavMachine.Proofs.Stack.Calls
import LavMachine.Proofs.Word
