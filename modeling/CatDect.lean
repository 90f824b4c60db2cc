import CatDect.Support.CheckedVec
import CatDect.Support.Kernel
import CatDect.Support.Truncate
import CatDect.Support.Loops
import CatDect.Support.FirstRanks
import CatDect.Support.FirstMax
import CatDect.Support.Interleaving
import CatDect.Support.HandleTrace
import CatDect.Support.AcquireRelease
import CatDect.Support.Overlap
import CatDect.Support.Lines
import CatDect.Support.Fairness
import CatDect.Support.Stages
import CatDect.Support.Format
import CatDect.Support.Reader
import CatDect.Support.Fifo
import CatDect.Support.LinkedCells
import CatDect.Postprocess.Candidates
import CatDect.Postprocess.IndexSort
import CatDect.Postprocess.Nms
import CatDect.Postprocess.Select
import CatDect.Postprocess.Reported
import CatDect.Postprocess.ScanOrder
import CatDect.Postprocess.Decode
import CatDect.Postprocess.Cells
import CatDect.Postprocess.Prefilter
import CatDect.Postprocess.Layout
import CatDect.Postprocess.Nchw
import CatDect.Postprocess.Results
import CatDect.Postprocess.SortRange
import CatDect.Postprocess.Similarity
import CatDect.Postprocess.IndexSafety
import CatDect.Postprocess.Labels
import CatDect.ImageHandle.Geometry
import CatDect.ImageHandle.Letterbox
import CatDect.ImageHandle.Tracking
import CatDect.ImageHandle.RegionSelection
import CatDect.ImageHandle.AimGate
import CatDect.ImageHandle.AimRate
import CatDect.ImageHandle.RegionState
import CatDect.ImageHandle.TargetPriority
import CatDect.ImageHandle.RgaHandles
import CatDect.Pipeline.Machine
import CatDect.Pipeline.Invariant
import CatDect.Pipeline.Queue
import CatDect.Pipeline.Delivery
import CatDect.Pipeline.Rounds
import CatDect.Pipeline.Ownership
import CatDect.Pipeline.Localisation
import CatDect.Pipeline.Failures
import CatDect.Pipeline.ImageSize
import CatDect.Pipeline.Handshake
import CatDect.Pipeline.FailureCodes
import CatDect.Pipeline.MediaBuffers
import CatDect.Pipeline.Liveness
import CatDect.Pipeline.Freshness
import CatDect.Mqtt.Turret
import CatDect.Mqtt.TeasingSwitch
import CatDect.Mqtt.Subscriber
import CatDect.Mqtt.Payload
import CatDect.Mqtt.Wire
import CatDect.Mqtt.Properties
import CatDect.Mqtt.Framing
import CatDect.Mqtt.PublishPacket
import CatDect.Mqtt.SocketBuffer
import CatDect.Mqtt.PendingWrites
import CatDect.Mqtt.LinkedList
import CatDect.Mqtt.ListHeap
import CatDect.Mqtt.Utf8
import CatDect.Mqtt.CommandQueue
import CatDect.Mqtt.CommandOrder
import CatDect.Mqtt.MessageIds
import CatDect.Mqtt.Outage
import CatDect.Mqtt.KeepAlive
import CatDect.Yolov5.Model
import CatDect.Yolov5.Release
import CatDect.Yolov5.Tables
