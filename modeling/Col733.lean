import Col733.Misc.System
import Col733.Misc.Linearizable
import Col733.Misc.Dict
import Col733.Lab3.SocketHelpers
import Col733.Lab3.Cr.Chain
import Col733.Lab3.Cr.Applied
import Col733.Lab3.Lcheck
import Col733.Lab3.Cr.Linearizable
import Col733.Lab3.Cr.Agreement
import Col733.Misc.Json
import Col733.Misc.JsonText
import Col733.Misc.JsonStr
import Col733.Lab4.Message
import Col733.Lab4.Storage
import Col733.Lab4.CtrlMsg
import Col733.Lab4.Network
import Col733.Lab4.Server
import Col733.Lab4.Cluster
import Col733.Lab4.Answering
import Col733.Lab4.Node
import Col733.Lab4.AntiEntropy
import Col733.Lab4.Stamping
import Col733.Misc.JsonModule
import Col733.Lab2.Message
import Col733.Misc.ByteStream
import Col733.Lab2.Reducer
import Col733.Misc.Counter
import Col733.Lab2.Mapper
import Col733.Lab2.Words
import Col733.Lab2.WordCount
import Col733.Misc.Frame
import Col733.Misc.Pool
import Col733.Lab3.Exchange
import Col733.Lab3.Crosstalk
import Col733.Lab3.RecvMessage
import Col733.Lab3.HandleClient
import Col733.Lab3.Cr.Server
import Col733.Lab3.Cr.Client
import Col733.Lab4.VectorTime
import Col733.Lab4.RoundTrip
import Col733.Lab4.BayouResponse
import Col733.Lab2.Attempts
import Col733.Lab3.Cr.Pools
import Col733.Misc.Pattern
import Col733.Lab3.ParseLog
import Col733.Lab3.ClientLog
import Col733.Lab3.History
import Col733.Lab2.Seq
import Col733.Lab2.Coordinator
import Col733.Lab2.Health
import Col733.Lab3.ErrCode
import Col733.Misc.Lcs
import Col733.Misc.Grid
import Col733.Demos.RayLcs
import Col733.Demos.RayMr
import Col733.Misc.SortedList
import Col733.Lab4.LogOrder
import Col733.Lab4.Comparable
import Col733.Misc.Progress
import Col733.Lab3.Cr.Progress
import Col733.Lab2.Progress
import Col733.Lab2.Job
import Col733.Lab2.Generator
import Col733.Lab2.Phases
import Col733.Lab2.Exits
import Col733.Lab2.Shutdown
import Col733.Misc.Widening
import Col733.Lab3.Cr.Calls
import Col733.Lab3.Cr.Test
import Col733.Lab3.Cr.TestLog
import Col733.Lab3.Cr.TestEnds
import Col733.Lab4.Gossip
import Col733.Lab4.Partition
import Col733.Lab4.Writes
import Col733.Lab4.Rounds
import Col733.Misc.VersionVector
import Col733.Lab4.Knowledge
import Col733.Lab4.Delivery
import Col733.Lab4.CatchUp
