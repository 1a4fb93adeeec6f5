import AuroraRelay.Lib.Transition
import AuroraRelay.Lib.Memory
import AuroraRelay.Lib.Filling
import AuroraRelay.Lib.Tiling
import AuroraRelay.Lib.Interaction
import AuroraRelay.Lib.Semaphore
import AuroraRelay.Lib.Counter
import AuroraRelay.Lib.LastMark
import AuroraRelay.Lib.FlowTable
import AuroraRelay.Lib.Reconciliation
import AuroraRelay.Lib.JsonText
import AuroraRelay.Lib.Changes
import AuroraRelay.Lib.Split
import AuroraRelay.Lib.LinkedList
import AuroraRelay.Lib.Sampling
import AuroraRelay.Lib.Fairness
import AuroraRelay.Lib.Regex
import AuroraRelay.WarpProtocol
import AuroraRelay.ControlEncoders
import AuroraRelay.FragmentReceiver
import AuroraRelay.ReceiverDatabase
import AuroraRelay.SlotFrame
import AuroraRelay.Reassembly
import AuroraRelay.SentPackets
import AuroraRelay.Delivery
import AuroraRelay.Noninterference
import AuroraRelay.StaleBytes
import AuroraRelay.CommsAgent
import AuroraRelay.CommandScript
import AuroraRelay.MacText
import AuroraRelay.RadioSet
import AuroraRelay.RadioParameters
import AuroraRelay.Responses
import AuroraRelay.CommandQueue
import AuroraRelay.ResponseDelivery
import AuroraRelay.RequestReply
import AuroraRelay.WarpToWlan
import AuroraRelay.MonToWarp
import AuroraRelay.Datapath
import AuroraRelay.StationFlows
import AuroraRelay.RemoveFlows
import AuroraRelay.AddFlows
import AuroraRelay.DpmAgent
import AuroraRelay.Execution
import AuroraRelay.ResponseText
import AuroraRelay.StationDatapath
import AuroraRelay.AssociationRoundTrip
import AuroraRelay.Polling
import AuroraRelay.SplitString
import AuroraRelay.SocketPath
import AuroraRelay.MonitorInterfaces
import AuroraRelay.StationTable
import AuroraRelay.StaleAssociation
import AuroraRelay.RemovalKeys
import AuroraRelay.StationRequests
import AuroraRelay.ConfirmedStations
import AuroraRelay.PacketFilter
import AuroraRelay.StationList
import AuroraRelay.AssociationIds
import AuroraRelay.StationBlocks
import AuroraRelay.StationListing
import AuroraRelay.Forwarding
import AuroraRelay.Slices
import AuroraRelay.ResponseSampling
import AuroraRelay.ReplyOrder
import AuroraRelay.CommandProgress
import AuroraRelay.ResponseProgress
import AuroraRelay.PortListing
import AuroraRelay.ManagementDelivery
import AuroraRelay.RelayCascade
import AuroraRelay.ShellCommands
import AuroraRelay.RelaySwitch
