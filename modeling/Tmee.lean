import Tmee.MemFile.Buffer
import Tmee.Lib.Ring
import Tmee.Lib.Run
import Tmee.MemFile.Access
import Tmee.MemFile.Writers
import Tmee.MemFile.WriteLaw
import Tmee.MemFile.Lock
import Tmee.Engine.Deadline
import Tmee.Engine.Events
import Tmee.Engine.EventHistory
import Tmee.CfgParse
import Tmee.Engine.Loader
import Tmee.Engine.Loading
import Tmee.Engine.NameBlocks
import Tmee.Engine.InitModules
import Tmee.MemFile.Header
import Tmee.Subscriber.Store
import Tmee.Subscriber.Listeners
import Tmee.Si.Event
import Tmee.Si.Trip
import Tmee.GoosePublisher.Publisher
import Tmee.GoosePublisher.Delivery
import Tmee.GoosePublisher.Schedule
import Tmee.Subscriber.Changes
import Tmee.Subscriber.RoundTrip
import Tmee.MemFile.HeaderInit
import Tmee.Engine.LoadOrder
import Tmee.Ipc.Dispatch
import Tmee.Ipc.Wire
import Tmee.Ipc.Network
import Tmee.Client.Endpoint
import Tmee.Lib.Hoare
import Tmee.Client.Client
import Tmee.Client.Reporting
import Tmee.Client.Control
import Tmee.Client.Calls
import Tmee.Client.Isolation
import Tmee.PythonExample.Readers
import Tmee.PythonExample.Writers
import Tmee.Si.Window
import Tmee.Si.Record
import Tmee.Si.CatchUp
import Tmee.OutputSize
import Tmee.GoosePublisher.Backoff
import Tmee.GoosePublisher.Lag
import Tmee.Lib.FloatFormat
import Tmee.MemFile.Conversion
import Tmee.SmvPublisher.Publisher
import Tmee.SmvPublisher.Transmission
import Tmee.InputFile
import Tmee.Client.Tree
import Tmee.Client.Update
import Tmee.CfgGetters
import Tmee.CfgLoad
import Tmee.StartUp.Settings
import Tmee.StartUp.Strings
import Tmee.PublisherSetup
import Tmee.MmsServer
import Tmee.Engine.RunList
import Tmee.Lib.Ledger
import Tmee.StartUp.Resources
import Tmee.StartUp.Deinit
import Tmee.Client.DataSets
import Tmee.Client.ReportHandler
import Tmee.Client.Routing
import Tmee.Client.References
import Tmee.Client.ReportEffect
import Tmee.Lib.Handles
import Tmee.Client.DiscoveryLists
import Tmee.Client.DiscoveryErrors
import Tmee.Client.Values
import Tmee.PythonExample.FileLock
import Tmee.Lib.Link
import Tmee.GoosePublisher.StateNumbers
import Tmee.GooseLink
import Tmee.SampledLink
import Tmee.TripLink
import Tmee.SampleStream
import Tmee.Client.Connections
import Tmee.Client.PrintRefs
import Tmee.CfgStore
import Tmee.CfgSave
import Tmee.Engine.Blocks
import Tmee.Engine.Lifecycle
import Tmee.Device
