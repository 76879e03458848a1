import CannonCar.Foundation.MachineInt
import CannonCar.Foundation.FloatModel
import CannonCar.Foundation.Trajectory
import CannonCar.Foundation.Latch
import CannonCar.FlashUi
import CannonCar.Ftm
import CannonCar.Ctrl.Speed
import CannonCar.Ctrl.Steer
import CannonCar.Foundation.Printf
import CannonCar.Oled
import CannonCar.Ui.Editor
import CannonCar.Ad
import CannonCar.Ui.Pages
import CannonCar.System
import CannonCar.Foundation.Preempt
import CannonCar.Interlock
import CannonCar.SoftStart
import CannonCar.StartKey
import CannonCar.Ui.Display
import CannonCar.Ctrl.SteerFit
import CannonCar.Ctrl.SteerExtremes
import CannonCar.Ctrl.ServoRange
import CannonCar.Ui.Visits
import CannonCar.Key.KeyTask
import CannonCar.Key.Mailbox
import CannonCar.Encoder
import CannonCar.Kboot.Packet
import CannonCar.Kboot.Framing
import CannonCar.Kboot.Stream
import CannonCar.Kboot.FlashCommand
import CannonCar.Kboot.Bootloader
import CannonCar.Kboot.Acknowledge
import CannonCar.Kboot.Protection
import CannonCar.Kboot.FlashBytes
import CannonCar.Kboot.WriteMemory
import CannonCar.Imu.Calibration
import CannonCar.Imu.Frames
import CannonCar.Ctrl.SpeedTerms
import CannonCar.Foundation.WordMemory
import CannonCar.MemPool
import CannonCar.Shell.Cread
import CannonCar.Shell.Line
import CannonCar.Foundation.RecallRing
import CannonCar.Shell.History
import CannonCar.Shell.Editor
import CannonCar.Shell.Print
import CannonCar.Shell.Terminal
import CannonCar.Shell.Prompts
import CannonCar.Foundation.Words
import CannonCar.Shell.ParseLine
import CannonCar.Shell.Dispatch
import CannonCar.Ad.Filter
import CannonCar.Prescaler
import CannonCar.Ad.Normalise
import CannonCar.Oled.Pixel
import CannonCar.Oled.Bus
import CannonCar.Oled.Lines
import CannonCar.Oled.Fonts
import CannonCar.Oled.Scan
import CannonCar.Oled.Print
import CannonCar.Oled.PrintLayout
import CannonCar.Foundation.Blocks
import CannonCar.Kboot.EraseRange
import CannonCar.Foundation.Calendar
import CannonCar.MemPool.Bounds
import CannonCar.Rtc
import CannonCar.Rtc.Dates
import CannonCar.Can
import CannonCar.I2c
import CannonCar.Shell.PrintBounds
import CannonCar.Shell.Autocomplete
import CannonCar.Shell.CompletionBounds
import CannonCar.Dma
import CannonCar.Foundation.Crc
import CannonCar.Kboot.Checksum
import CannonCar.Foundation.Hull
import CannonCar.Imu.Kalman
import CannonCar.Foundation.KeepBest
import CannonCar.Spi
import CannonCar.Foundation.CommonPrefix
import CannonCar.Shell.CommonPrefix
import CannonCar.Foundation.TwoLevel
import CannonCar.Ucos.PrioTable
import CannonCar.Foundation.Deque
import CannonCar.Ucos.Queue
import CannonCar.Ucos.Kernel
import CannonCar.Ucos.Services
import CannonCar.Ucos.Tasks
import CannonCar.Ucos.Steps
import CannonCar.Ucos.Sound
import CannonCar.Ucos.Wakes
import CannonCar.Ucos.Posts
import CannonCar.Ucos.Live
import CannonCar.Ucos.Stops
import CannonCar.Ucos.Creates
import CannonCar.Ucos.Runs
import CannonCar.Ucos.Frames
import CannonCar.Ucos.Deliveries
import CannonCar.Ucos.Delays
import CannonCar.Ucos.Flow
import CannonCar.Foundation.LinkedList
import CannonCar.Ucos.Alarms
