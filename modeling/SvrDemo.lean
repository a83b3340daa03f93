import SvrDemo.Coroutine.Program
import SvrDemo.Coroutine.Logic
import SvrDemo.Coroutine.Footprint
import SvrDemo.Coroutine.Recording
import SvrDemo.Lua.Table
import SvrDemo.Skynet.Runtime
import SvrDemo.Coroutine.Oracle
import SvrDemo.Skynet.Oracle
import SvrDemo.Douniu.Settlement
import SvrDemo.Douniu.CardConservation
import SvrDemo.Douniu.StakeFreeze
import SvrDemo.Douniu.Payment
import SvrDemo.Login.TokenUse
import SvrDemo.Login.SessionIds
import SvrDemo.Map.Neighbours
import SvrDemo.Gamed.OneAgent
import SvrDemo.Gamed.Recorded
import SvrDemo.Gamed.Handover
import SvrDemo.Douniu.RoomStore
import SvrDemo.Douniu.Membership
import SvrDemo.Douniu.PhaseRuns
import SvrDemo.Douniu.OneGame
import SvrDemo.Douniu.RoomLinks
import SvrDemo.Douniu.RepeatedLeave
import SvrDemo.Douniu.LeaveReturns
import SvrDemo.Base.UuidOrder
import SvrDemo.Login.Srp
import SvrDemo.Database.UserInfo
import SvrDemo.Database.AccountRecords
import SvrDemo.Database.CharacterLists
import SvrDemo.Map.AgentPosition
import SvrDemo.Douniu.MatchLoop
import SvrDemo.Map.Subscriptions
import SvrDemo.Map.ViewChange
import SvrDemo.Map.FailedCalls
import SvrDemo.Map.PointIndex
import SvrDemo.Map.Registry
import SvrDemo.Map.Coalesced
import SvrDemo.Gamed.AnsweredOnce
import SvrDemo.Combat.Health
import SvrDemo.Database.Groups
import SvrDemo.Database.DaoFailover
import SvrDemo.Client.RoundTrip
import SvrDemo.Match.Queue
import SvrDemo.World.Registration
import SvrDemo.Douniu.ShowHand
import SvrDemo.Douniu.HandOrder
import SvrDemo.Douniu.BullValue
import SvrDemo.Douniu.Election
import SvrDemo.Base.Fairness
import SvrDemo.Douniu.Shuffle
import SvrDemo.Douniu.OfferedRooms
import SvrDemo.Skynet.TimerWheel
import SvrDemo.Skynet.PackageOrder
import SvrDemo.Skynet.Dispatch
import SvrDemo.Skynet.HandleLookup
import SvrDemo.Skynet.SocketPoll
import SvrDemo.Sproto.Segment
import SvrDemo.Sproto.RoundTrip
