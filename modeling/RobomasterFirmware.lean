import RobomasterFirmware.Lib.Machine
import RobomasterFirmware.Lib.BitField
import RobomasterFirmware.Lib.Saturate
import RobomasterFirmware.Lib.ControlLaw
import RobomasterFirmware.Lib.Unwrap
import RobomasterFirmware.Lib.Agenda
import RobomasterFirmware.Lib.Buckets
import RobomasterFirmware.Lib.Pool
import RobomasterFirmware.Lib.Queue
import RobomasterFirmware.Algorithm.DbusFormat
import RobomasterFirmware.Algorithm.PidModes
import RobomasterFirmware.Algorithm.PidMirror
import RobomasterFirmware.Algorithm.PidSteady
import RobomasterFirmware.Applications.CanRw
import RobomasterFirmware.Applications.Odometry
import RobomasterFirmware.Applications.TurnCount
import RobomasterFirmware.Applications.Rc
import RobomasterFirmware.Applications.EnableGate
import RobomasterFirmware.Applications.Isolation
import RobomasterFirmware.Applications.CommandRange
import RobomasterFirmware.Applications.Mecanum
import RobomasterFirmware.Applications.Mirror
import RobomasterFirmware.Applications.SteadyError
import RobomasterFirmware.Applications.GimbalError
import RobomasterFirmware.Drivers.Can
import RobomasterFirmware.Drivers.CanTx
import RobomasterFirmware.Drivers.CanMailbox
import RobomasterFirmware.Drivers.CanErrors
import RobomasterFirmware.Drivers.CanProgress
import RobomasterFirmware.Drivers.CanFrame
import RobomasterFirmware.Drivers.Device
import RobomasterFirmware.Applications.CanRx
import RobomasterFirmware.Drivers.Serial
import RobomasterFirmware.Drivers.SerialSync
import RobomasterFirmware.Drivers.SerialInt
import RobomasterFirmware.Drivers.Shell
import RobomasterFirmware.Kernel.Timer
import RobomasterFirmware.Kernel.Calendar
import RobomasterFirmware.Kernel.Timeouts
import RobomasterFirmware.Kernel.TimerFlag
import RobomasterFirmware.Kernel.Scheduler
import RobomasterFirmware.Kernel.Fairness
import RobomasterFirmware.Kernel.Threads
import RobomasterFirmware.Kernel.Sleep
import RobomasterFirmware.Applications.DbusReception
import RobomasterFirmware.Applications.DbusStartup
