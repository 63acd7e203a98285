import Esp32AtMqtt.AtCli.Console
import Esp32AtMqtt.AtCli.Editing
import Esp32AtMqtt.AtClient.Bounds
import Esp32AtMqtt.AtClient.Client
import Esp32AtMqtt.AtClient.Completion
import Esp32AtMqtt.AtClient.Exchange
import Esp32AtMqtt.AtClient.Isolation
import Esp32AtMqtt.AtClient.Lines
import Esp32AtMqtt.AtClient.Lookup
import Esp32AtMqtt.AtClient.Overflow
import Esp32AtMqtt.AtClient.Readline
import Esp32AtMqtt.AtClient.Response
import Esp32AtMqtt.AtServer.Answer
import Esp32AtMqtt.AtServer.Bounds
import Esp32AtMqtt.AtServer.Command
import Esp32AtMqtt.AtServer.Server
import Esp32AtMqtt.AtSocket.Address
import Esp32AtMqtt.AtSocket.Allocation
import Esp32AtMqtt.AtSocket.Close
import Esp32AtMqtt.AtSocket.Descriptor
import Esp32AtMqtt.AtSocket.HostName
import Esp32AtMqtt.AtSocket.Notify
import Esp32AtMqtt.AtSocket.Readiness
import Esp32AtMqtt.AtSocket.RecvPkt
import Esp32AtMqtt.AtSocket.Send
import Esp32AtMqtt.AtSocket.Socket
import Esp32AtMqtt.AtSocket.Stream
import Esp32AtMqtt.AtSocket.Table
import Esp32AtMqtt.AtSocket.Timeout
import Esp32AtMqtt.AtUart.Getchar
import Esp32AtMqtt.Codec.Base128
import Esp32AtMqtt.Codec.ControlPacket
import Esp32AtMqtt.Codec.Decimal
import Esp32AtMqtt.Codec.Numeral
import Esp32AtMqtt.Codec.Utf8
import Esp32AtMqtt.Drivers.Ringbuffer
import Esp32AtMqtt.Edp.BinStr
import Esp32AtMqtt.Edp.Buffer
import Esp32AtMqtt.Edp.Capacity
import Esp32AtMqtt.Edp.Document
import Esp32AtMqtt.Edp.Packet
import Esp32AtMqtt.Edp.Read
import Esp32AtMqtt.Edp.Remainlen
import Esp32AtMqtt.Edp.RoundTrip
import Esp32AtMqtt.Edp.Savedata
import Esp32AtMqtt.Edp.Segment
import Esp32AtMqtt.Edp.UartData
import Esp32AtMqtt.Edp.Unpack
import Esp32AtMqtt.Edp.Write
import Esp32AtMqtt.Gsm.Acceptance
import Esp32AtMqtt.Gsm.Amount
import Esp32AtMqtt.Gsm.Bringup
import Esp32AtMqtt.Gsm.Command
import Esp32AtMqtt.Gsm.Connect
import Esp32AtMqtt.Gsm.DeviceId
import Esp32AtMqtt.Gsm.Dispatch
import Esp32AtMqtt.Gsm.Heartbeat
import Esp32AtMqtt.Gsm.Listening
import Esp32AtMqtt.Gsm.OneReader
import Esp32AtMqtt.Gsm.PackConnect
import Esp32AtMqtt.Gsm.Pattern
import Esp32AtMqtt.Gsm.Receiver
import Esp32AtMqtt.Gsm.Representation
import Esp32AtMqtt.Gsm.Resync
import Esp32AtMqtt.Gsm.Retry
import Esp32AtMqtt.Gsm.SubscribeSent
import Esp32AtMqtt.Gsm.Thread
import Esp32AtMqtt.Gsm.Voice
import Esp32AtMqtt.Gsm.VoiceHistory
import Esp32AtMqtt.Gsm.VoiceOrder
import Esp32AtMqtt.Kernel.Blocks
import Esp32AtMqtt.Kernel.Chunks
import Esp32AtMqtt.Kernel.Event
import Esp32AtMqtt.Kernel.Heap
import Esp32AtMqtt.Kernel.HeapRun
import Esp32AtMqtt.Kernel.Inheritance
import Esp32AtMqtt.Kernel.Ipc
import Esp32AtMqtt.Kernel.Mailbox
import Esp32AtMqtt.Kernel.MessageQueue
import Esp32AtMqtt.Kernel.Mutex
import Esp32AtMqtt.Kernel.Ready
import Esp32AtMqtt.Kernel.Realloc
import Esp32AtMqtt.Kernel.RoundRobin
import Esp32AtMqtt.Kernel.Scheduler
import Esp32AtMqtt.Kernel.Semaphore
import Esp32AtMqtt.Kernel.Timer
import Esp32AtMqtt.Lwip.Access
import Esp32AtMqtt.Lwip.Connect
import Esp32AtMqtt.Lwip.Handshake
import Esp32AtMqtt.Lwip.OneNet
import Esp32AtMqtt.Lwip.Output
import Esp32AtMqtt.Lwip.Publish
import Esp32AtMqtt.Lwip.Receive
import Esp32AtMqtt.Lwip.Requests
import Esp32AtMqtt.Memory.Chain
import Esp32AtMqtt.Memory.Flat
import Esp32AtMqtt.Memory.Places
import Esp32AtMqtt.Memory.Region
import Esp32AtMqtt.Memory.Words
import Esp32AtMqtt.Mqtt.Acknowledge
import Esp32AtMqtt.Mqtt.Binary
import Esp32AtMqtt.Mqtt.Buffer
import Esp32AtMqtt.Mqtt.Builder
import Esp32AtMqtt.Mqtt.Chunks
import Esp32AtMqtt.Mqtt.CmdRet
import Esp32AtMqtt.Mqtt.Command
import Esp32AtMqtt.Mqtt.Connect
import Esp32AtMqtt.Mqtt.ConnectPacket
import Esp32AtMqtt.Mqtt.DataPoint
import Esp32AtMqtt.Mqtt.Dispatch
import Esp32AtMqtt.Mqtt.Draft
import Esp32AtMqtt.Mqtt.Grammar
import Esp32AtMqtt.Mqtt.Ledger
import Esp32AtMqtt.Mqtt.Length
import Esp32AtMqtt.Mqtt.Pack
import Esp32AtMqtt.Mqtt.Packing
import Esp32AtMqtt.Mqtt.Publish
import Esp32AtMqtt.Mqtt.Receive
import Esp32AtMqtt.Mqtt.Request
import Esp32AtMqtt.Mqtt.RoundTrip
import Esp32AtMqtt.Mqtt.Send
import Esp32AtMqtt.Mqtt.Subscription
import Esp32AtMqtt.Mqtt.TopicEntry
import Esp32AtMqtt.Mqtt.Topics
import Esp32AtMqtt.Mqtt.Utf8
import Esp32AtMqtt.Mqtt.Whole
import Esp32AtMqtt.OneNet.Register
import Esp32AtMqtt.OneNet.Write
import Esp32AtMqtt.Serial.Receive
import Esp32AtMqtt.Serial.RxFifo
import Esp32AtMqtt.Stream.Agenda
import Esp32AtMqtt.Stream.Delta
import Esp32AtMqtt.Stream.Ended
import Esp32AtMqtt.Stream.Framing
import Esp32AtMqtt.Stream.Newest
import Esp32AtMqtt.Stream.Ring
import Esp32AtMqtt.Stream.Search
import Esp32AtMqtt.Stream.Shortest
import Esp32AtMqtt.Stream.Turns
import Esp32AtMqtt.Transition.Ladder
import Esp32AtMqtt.Transition.Mesa
import Esp32AtMqtt.Transition.Run
