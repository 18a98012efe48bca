import VhostUser.Server.RxConformance
import VhostUser.Server.Echo
import VhostUser.Server.TxAccess
import VhostUser.Server.MemInstall
import VhostUser.Server.Undelivered
import VhostUser.Server.RingMessages
import VhostUser.Server.FdRegistry
import VhostUser.Qemu.TableRoom
import VhostUser.Qemu.LogPass
import VhostUser.Qemu.NetTimer
import VhostUser.Qemu.LinkState
import VhostUser.Qemu.Features
import VhostUser.Qemu.QueueNotify
import VhostUser.Qemu.AccessValid
import VhostUser.Qemu.RamBlocks
import VhostUser.Qemu.HostMem
import VhostUser.Qemu.NetProgress
import VhostUser.Qemu.PacketQueue
import VhostUser.Qemu.DataplaneAgree
import VhostUser.Protocol.MemTable
import VhostUser.Protocol.Stream
import VhostUser.Protocol.VringFile
import VhostUser.Protocol.Handover
import VhostUser.Transport.Exchange
import VhostUser.Qemu.TableMessage
import VhostUser.Qemu.DevErrors
import VhostUser.Qemu.RingLayout
import VhostUser.Qemu.NotifyAgree
import VhostUser.Qemu.NetLoadBounds
import VhostUser.Qemu.CtrlBatch
import VhostUser.Qemu.NetScatter
