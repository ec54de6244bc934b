import Tpf3Mp.Agent.Commands
import Tpf3Mp.Agent.Joint
import Tpf3Mp.Agent.Launcher
import Tpf3Mp.Agent.SaveData
import Tpf3Mp.Agent.SaveFuel
import Tpf3Mp.Agent.Untrusted
import Tpf3Mp.Canon.Charges
import Tpf3Mp.Canon.Cost
import Tpf3Mp.Canon.Towns
import Tpf3Mp.Hook.Build
import Tpf3Mp.Hook.Profile
import Tpf3Mp.Hook.Proxygen
import Tpf3Mp.Ipc.Fifo
import Tpf3Mp.Ipc.Link
import Tpf3Mp.Net.Delivery
import Tpf3Mp.Server.Admission
import Tpf3Mp.Server.Guard
import Tpf3Mp.Server.Holds
import Tpf3Mp.Server.JoinOrder
import Tpf3Mp.Server.Offers
import Tpf3Mp.Server.Rates
import Tpf3Mp.Server.RoomClock
import Tpf3Mp.Server.SaveStream
import Tpf3Mp.Server.TurnSize
import Tpf3Mp.Snapshot.Account
import Tpf3Mp.Snapshot.Pinned
