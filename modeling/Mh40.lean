import Mh40.Rwcp.Delivery
import Mh40.RulesEngine.Activity
import Mh40.RulesEngine.Serialisation
import Mh40.RulesEngine.Completion
import Mh40.GoalsEngine.Compatibility
import Mh40.GoalsEngine.Stereo
import Mh40.Marshal.RoundTrip
import Mh40.CaseComms.Polling
import Mh40.CaseComms.Accounting
import Mh40.ScriptEngine.Order
import Mh40.DfuProtocol.Answers
import Mh40.SchedOxygen.Accounting
import Mh40.Rafs.Workers
import Mh40.GattManager.ReliableWrites
import Mh40.MallocPm.Heap
import Mh40.FastPair.Framing
import Mh40.InputEventManager.Independence
import Mh40.Gaia.Flow
import Mh40.TrustedDevices.Content
import Mh40.TrustedDevices.PowerLoss
import Mh40.KeyValue.Sized
import Mh40.Tasks.Copies
import Mh40.DeviceDb.Contained
import Mh40.RulesEngine.OwnStatus
import Mh40.DeviceDb.Deadlines
import Mh40.DeviceDb.Backup
import Mh40.Marshal.Remaining
import Mh40.Marshal.Elements
import Mh40.ByteUtils.Messages
import Mh40.Rafs.Sequence
import Mh40.Upgrade.HeaderChunks
import Mh40.Upgrade.Divisions
import Mh40.Upgrade.LowBattery
import Mh40.Upgrade.MainHeader
import Mh40.GattManager.Cancellation
import Mh40.GattManager.HandleMap
import Mh40.A2dp.BlockContents
import Mh40.Rafs.Closing
import Mh40.Buffers.Messages
import Mh40.BuffMetadata.Items
import Mh40.A2dp.Negotiation
import Mh40.A2dp.Signalling
import Mh40.A2dp.Scanning
import Mh40.DeviceList.AsSet
import Mh40.Gaia.ClaimedPacket
import Mh40.Base64.Encode
import Mh40.StateOfCharge.Reporting
import Mh40.BatteryMonitor.Average
import Mh40.BatteryRegion.ChargingTimer
import Mh40.TrustedDevices.PackedKeys
import Mh40.Gaia.DataTransferGet
import Mh40.UserAccounts.Handsets
import Mh40.PlMalloc.BestFit
import Mh40.Rtime.SamplesToTime
import Mh40.Gaia.UpgradeOrder
import Mh40.InputEventManager.OnePattern
import Mh40.InputEventManager.Clicks
import Mh40.InputEventManager.Untimed
import Mh40.ScratchMemory.Reservations
