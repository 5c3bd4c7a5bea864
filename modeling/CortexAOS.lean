import CortexAOS.Lib.Run
import CortexAOS.Lib.Ring
import CortexAOS.Lib.Clip
import CortexAOS.Platform
import CortexAOS.Tables
import CortexAOS.Uart
import CortexAOS.Sched
import CortexAOS.Syscall
import CortexAOS.Exception
import CortexAOS.Abstract
import CortexAOS.Invariant
import CortexAOS.Dispatch
import CortexAOS.Faults
import CortexAOS.Retired
import CortexAOS.RoundRobin
import CortexAOS.Wakeup
import CortexAOS.Readers
import CortexAOS.Asleep
import CortexAOS.Console
import CortexAOS.Lib.Bits
import CortexAOS.Pgtable
import CortexAOS.Mmu
import CortexAOS.UserPtr
import CortexAOS.Ps
import CortexAOS.Isolation
import CortexAOS.Entry
import CortexAOS.FirstEntry
import CortexAOS.Stacks
import CortexAOS.Transparent
import CortexAOS.Shortcut
import CortexAOS.AddressSpace
import CortexAOS.Errors
import CortexAOS.FaultStacks
import CortexAOS.Pl011
import CortexAOS.Ulib
import CortexAOS.Shell
import CortexAOS.Lib.Numeral
import CortexAOS.Printf
import CortexAOS.Decimal
import CortexAOS.UartPrintf
import CortexAOS.Formatters
import CortexAOS.Commands
import CortexAOS.Delay
import CortexAOS.Editor
import CortexAOS.Gic
import CortexAOS.Layout
import CortexAOS.MapRange
import CortexAOS.Lib.Lane
import CortexAOS.Images
import CortexAOS.Linker
import CortexAOS.Start
import CortexAOS.Kmain
import CortexAOS.Lib.Mmio
import CortexAOS.Transmit
import CortexAOS.Intc
import CortexAOS.Bbb
import CortexAOS.Lib.Wheel
import CortexAOS.Timer
