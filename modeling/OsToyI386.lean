import OsToyI386.Lib.Runs
import OsToyI386.Lib.Linked
import OsToyI386.Lib.Apart
import OsToyI386.Tools.ListRuns
import OsToyI386.Kernel.Machine
import OsToyI386.Scheduler.Simulation
import OsToyI386.Scheduler.Boot
import OsToyI386.Properties.Placement
import OsToyI386.Properties.Mutex
import OsToyI386.Properties.Semaphore
import OsToyI386.Properties.Fairness
import OsToyI386.Properties.Sleep
import OsToyI386.Properties.Hardware
import OsToyI386.Properties.Creation
import OsToyI386.Properties.Tick
import OsToyI386.Properties.MemoryMap
import OsToyI386.Properties.Detection
import OsToyI386.Properties.KernelImage
import OsToyI386.Properties.States
import OsToyI386.Properties.Selectors
import OsToyI386.Properties.LogLines
import OsToyI386.Properties.Protection
import OsToyI386.Properties.Format
import OsToyI386.Properties.Strings
import OsToyI386.Properties.Uart
import OsToyI386.Properties.Dump
import OsToyI386.Properties.Decode
import OsToyI386.Properties.TaskState
import OsToyI386.Properties.ReadDisk
import OsToyI386.Properties.Trap
import OsToyI386.Properties.Progress
import OsToyI386.Properties.Nesting
import OsToyI386.Properties.Deadlock
import OsToyI386.Properties.Notify
import OsToyI386.Properties.Vectors
import OsToyI386.Properties.Interrupts
import OsToyI386.Properties.Clock
import OsToyI386.Properties.Handover
import OsToyI386.Properties.Exceptions
import OsToyI386.Properties.Shares
import OsToyI386.Scheduler.Serving
import OsToyI386.Properties.Serving
import OsToyI386.Properties.Memory
import OsToyI386.Properties.Serial
