import FlowerRoute.Lib.Outcome
import FlowerRoute.Lib.Heap
import FlowerRoute.Lib.SearchTree
import FlowerRoute.Lib.Tlv
import FlowerRoute.Lib.GapSearch
import FlowerRoute.Lib.LinkedList
import FlowerRoute.Lib.LineInput
import FlowerRoute.Lib.FirstMatch
import FlowerRoute.Lib.RedBlack
import FlowerRoute.Model.Address
import FlowerRoute.Model.TcRule
import FlowerRoute.Model.Netlink
import FlowerRoute.Model.TcEncode
import FlowerRoute.Model.TcDecode
import FlowerRoute.Model.Queue
import FlowerRoute.Model.Executor
import FlowerRoute.Model.Rbtree
import FlowerRoute.Verif.ExecutorOrder
import FlowerRoute.Verif.RoundTrip
import FlowerRoute.Verif.Masks
import FlowerRoute.Verif.Sound
import FlowerRoute.Verif.Frames
import FlowerRoute.Verif.StateMachine
import FlowerRoute.Verif.Discipline
import FlowerRoute.Verif.StaticRules
import FlowerRoute.Verif.OtherFilters
import FlowerRoute.Verif.Calm
import FlowerRoute.Verif.Mirror
import FlowerRoute.Verif.Synchronised
import FlowerRoute.Verif.Allocators
import FlowerRoute.Verif.TreeOrder
import FlowerRoute.Verif.PositionRuns
import FlowerRoute.Verif.LongestPrefix
import FlowerRoute.Verif.Adoption
import FlowerRoute.Verif.LostAndFound
import FlowerRoute.Model.Onload
import FlowerRoute.Verif.Onload
import FlowerRoute.Model.PrefixFile
import FlowerRoute.Verif.PrefixFile
import FlowerRoute.Model.RtNames
import FlowerRoute.Verif.RtNames
import FlowerRoute.Model.RouteLists
import FlowerRoute.Verif.Writes
import FlowerRoute.Verif.WeakCounts
import FlowerRoute.Verif.RouteLists
import FlowerRoute.Verif.ForeignFilters
import FlowerRoute.Verif.DaemonFilters
import FlowerRoute.Verif.ChainTree
import FlowerRoute.Verif.Rbtree
import FlowerRoute.Verif.RbtreeRuns
import FlowerRoute.Verif.ObjectIndex
import FlowerRoute.Verif.ObjectTables
import FlowerRoute.Verif.IndexSound
import FlowerRoute.Verif.MessageSteps
import FlowerRoute.Verif.ObjectRuns
import FlowerRoute.Verif.LookupCost
import FlowerRoute.Model.SchedBasic
import FlowerRoute.Verif.InitialRules
import FlowerRoute.Verif.Scanning
import FlowerRoute.Verif.ScanRounds
