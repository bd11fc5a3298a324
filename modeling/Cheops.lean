import Cheops.Scheduler.Order
import Cheops.Scheduler.Wait
import Cheops.Scheduler.Call
import Cheops.Scheduler.Deletion
import Cheops.Event.Fragmentation
import Cheops.Event.Login
import Cheops.Event.Isolation
import Cheops.Event.Send
import Cheops.Event.Errors
import Cheops.Agents.Replies
import Cheops.Agents.Polled
import Cheops.Fields.Orders
import Cheops.Fields.Network
import Cheops.Fields.ErrorReplies
import Cheops.OsScan.Arrival
import Cheops.OsScan.Mailbox
import Cheops.OsScan.Command
import Cheops.OsScan.Reply
import Cheops.OsScan.Settings
import Cheops.OsScan.Pipe
import Cheops.OsScan.Bounds
import Cheops.OsScan.NmapXml
import Cheops.OsScan.Packing
import Cheops.Discover.Chain
import Cheops.Discover.Packet
import Cheops.Discover.Retries
import Cheops.Discover.Replies
import Cheops.Map.Path
import Cheops.Map.Clients
import Cheops.Map.Timer
import Cheops.Io.Wait
import Cheops.Io.Pass
import Cheops.Io.Arrays
import Cheops.IpUtils.Checksum
import Cheops.Cache
import Cheops.Probes.Once
import Cheops.ServiceList.Refinement
import Cheops.Canvas.Graph
import Cheops.Canvas.Remove
import Cheops.Gui.Notes
import Cheops.Gui.ProbeReply
import Cheops.Gui.RunCommand
import Cheops.Misc.Parse
import Cheops.IpUtils.Routes
import Cheops.Gui.Io
import Cheops.Gui.Dns
import Cheops.Probes.Release
import Cheops.OsScan.Queue
import Cheops.Monitoring
import Cheops.Gui.Pixmap
import Cheops.OsScan.Services
import Cheops.Gui.Banner
import Cheops.Gui.Config
import Cheops.Io.Capacity
import Cheops.Scheduler.Ownership
import Cheops.Scheduler.Settime
import Cheops.Canvas.SessionRun
import Cheops.Gui.DiscoveryRun
import Cheops.Gui.Replay
import Cheops.Sh.Conversation
import Cheops.Gui.DiscoverySystem
