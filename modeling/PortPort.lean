import PortPort.Common.RecvLoop
import PortPort.Common.RoundTrip
import PortPort.Server.Newcomer
import PortPort.Client.RecvDrain
import PortPort.Client.LocalWakeup
import PortPort.Client.LocalSelector
import PortPort.Client.LocalReports
import PortPort.Server.RelayWakeup
import PortPort.Server.RelayResources
import PortPort.Server.RelayErrors
import PortPort.Server.FramesHandled
import PortPort.Server.AcceptLoop
import PortPort.Server.ManagerEnd
import PortPort.Server.Service
import PortPort.Server.PortRange
import PortPort.Server.Routing
import PortPort.System.Integrity
import PortPort.System.Agreement
import PortPort.System.CrossingCloses
import PortPort.System.Reuse
import PortPort.System.GracefulClose
import PortPort.System.EventLoops
import PortPort.System.PoisonedBuffers
import PortPort.System.Handshake
import PortPort.System.TlsBuffers
import PortPort.System.FrameStream
import PortPort.System.Destroyed
import PortPort.System.DestroyAnswered
import PortPort.Client.ThreadsEnd
import PortPort.System.SessionEnds
import PortPort.System.WakeupPairs
import PortPort.System.ConnectionRun
import PortPort.System.Delivery
import PortPort.System.Handled
