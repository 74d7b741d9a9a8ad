import Maskset.Logic.Prog
import Maskset.War.Player
import Maskset.War.PlayHand
import Maskset.War.Plays
import Maskset.War.Simulate
import Maskset.War.Conservation
import Maskset.War.Aggregate
import Maskset.War.Bound
import Maskset.War.Mirror
import Maskset.War.Descent
import Maskset.War.Stakes
import Maskset.War.Verdict
import Maskset.War.Queue
import Maskset.War.Records
import Maskset.War.Requests
import Maskset.War.Ratios
import Maskset.Logic.Machine
import Maskset.Logic.Memory
import Maskset.Logic.Registers
import Maskset.Logic.Split
import Maskset.Logic.Terminal
import Maskset.Logic.Nor
import Maskset.Logic.Interpolation
import Maskset.Uart.ShellPort
import Maskset.Uart.Fifo
import Maskset.Uart.Counters
import Maskset.Uart.Log
import Maskset.Fpb.Breakpoints
import Maskset.Fpb.Fpb
import Maskset.Heap.Sbrk
import Maskset.Shell.Shell
import Maskset.Shell.Parse
import Maskset.Shell.Receive
import Maskset.Shell.Lines
import Maskset.Shell.Screen
import Maskset.Shell.Sections
import Maskset.Shell.Reference
import Maskset.Shell.Invariant
import Maskset.Shell.Overlong
import Maskset.Flash.Nvmc
import Maskset.Flash.Area
import Maskset.Flash.Containment
import Maskset.Flash.Erase
import Maskset.Flash.Programming
import Maskset.Flash.Sectors
import Maskset.Flash.RoundTrip
import Maskset.Thermistor.Interpolate
import Maskset.Thermistor.Lut
import Maskset.Uart.Uarte
import Maskset.Console.Loop
import Maskset.Console.Drain
import Maskset.Console.Paced
import Maskset.Logic.Service
import Maskset.Flash.Regions
import Maskset.Flash.History
import Maskset.Flash.Slots
import Maskset.Modbus.Server
import Maskset.Logic.Words
import Maskset.Boot.Startup
import Maskset.Logic.Lines
import Maskset.Renode.Example
import Maskset.War.MakeMd
import Maskset.Logic.Inversion
import Maskset.Thermistor.Calibration
import Maskset.Thermistor.Agreement
import Maskset.Logic.Tasks
import Maskset.War.Csv
import Maskset.War.Main
import Maskset.Flash.Client
import Maskset.Boot.Handover
import Maskset.Shell.Strings
import Maskset.Boot.Application
import Maskset.Boot.Device
import Maskset.Fpb.Session
