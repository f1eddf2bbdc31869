import OsIrose.Socket
import OsIrose.SocketStream
import OsIrose.Isc
import OsIrose.Server
import OsIrose.Dispatch
import OsIrose.Escape
import OsIrose.Login
import OsIrose.MapClient
import OsIrose.Session
import OsIrose.Conservation
import OsIrose.PartyRules
import OsIrose.PartyConsent
import OsIrose.Grid
import OsIrose.Switch
import OsIrose.Channels
import OsIrose.SendQueue
import OsIrose.LoginSessions
import OsIrose.AntiCheat
import OsIrose.SaveLoad
import OsIrose.Lookup
import OsIrose.ScriptReload
import OsIrose.GmCommands
import OsIrose.ViewRuns
import OsIrose.PacketOverflow
import OsIrose.PacketReplies
import OsIrose.SavedRows
import OsIrose.CharSelect
import OsIrose.Duplex
import OsIrose.CryptCorruption
import OsIrose.EquipAtomic
import OsIrose.ItemAccess
import OsIrose.TickSplitting
import OsIrose.PartyDepartures
import OsIrose.ServerSelect
import OsIrose.ChannelRegistry
import OsIrose.CharEquipment
import OsIrose.Broadcast
import OsIrose.HeldIds
import OsIrose.ConnectionPool
import OsIrose.Skills
import OsIrose.ScriptFiles
import OsIrose.ItemWords
import OsIrose.KeyIndex
import OsIrose.PacketLoops
import OsIrose.FuzzyMatch
import OsIrose.NetworkThreadPool
import OsIrose.OwnCharacters
import OsIrose.Directory
import OsIrose.IscLink
import OsIrose.Chat
import OsIrose.ItemSupply
import OsIrose.Earshot
