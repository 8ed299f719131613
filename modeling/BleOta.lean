import BleOta.Lib.Ring
import BleOta.Lib.Replay
import BleOta.Lib.Chunks
import BleOta.Sink.Handles
import BleOta.Sink.Boot
import BleOta.Sink.Atomicity
import BleOta.Sink.Spec
import BleOta.Sink.Refinement
import BleOta.Sink.Accounting
import BleOta.Sink.Observer
import BleOta.Device.Defs
import BleOta.Device.Steps
import BleOta.Device.Invariant
import BleOta.Device.Acks
import BleOta.Device.Stale
import BleOta.Device.Sessions
import BleOta.Device.Completion
import BleOta.Device.Counts
import BleOta.Device.Extent
import BleOta.Device.Owned
import BleOta.Device.Blocked
import BleOta.Progress.Defs
import BleOta.Progress.Ahead
import BleOta.Progress.Store
import BleOta.Host.Defs
import BleOta.Host.Frames
import BleOta.Host.Packets
import BleOta.Host.Sector
import BleOta.Host.Transfer
import BleOta.Host.Recovery
import BleOta.Host.Flash
import BleOta.Host.Reboot
import BleOta.Host.Verdict
import BleOta.Gui.Flash
import BleOta.Gui.Agreement
import BleOta.Gui.Worker
import BleOta.Hxd019.Frame
import BleOta.Hxd019.Uart
import BleOta.Hxd019.Cache
import BleOta.Hxd019.Requests
import BleOta.Hxd019.TempStep
import BleOta.Hxd019.Commands
import BleOta.Hxd019.Tasks
import BleOta.Hxd019.Serial
import BleOta.Hxd019.Unbound
import BleOta.Hxd019.Encoding
import BleOta.Hxd019.Receive
import BleOta.Hxd019.Splits
import BleOta.Hxd019.Learn
import BleOta.Host.Detection
import BleOta.Host.Bursts
import BleOta.Gui.WorkerSteps
import BleOta.Gui.Busy
import BleOta.Gui.Cancel
import BleOta.World.Defs
import BleOta.World.Link
import BleOta.World.Image
import BleOta.Gatt.Defs
import BleOta.Gatt.Server
import BleOta.Device.Assembly
import BleOta.Device.Drains
import BleOta.Device.Settles
import BleOta.Device.Fates
import BleOta.World.Liveness
import BleOta.World.Retry
import BleOta.Hxd019.Wire
import BleOta.Gui.Heatmap
