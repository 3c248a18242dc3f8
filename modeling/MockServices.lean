import MockServices.Detail.ListenSocket
import MockServices.Detail.ServerThreads
import MockServices.Detail.SocketClosers
import MockServices.Detail.TempDir
import MockServices.Detail.TempPaths
import MockServices.Detail.ThreadGroup
import MockServices.Foundations.Blocks
import MockServices.Foundations.BufferedFile
import MockServices.Foundations.CallLog
import MockServices.Foundations.Cancellation
import MockServices.Foundations.Custody
import MockServices.Foundations.Decimal
import MockServices.Foundations.Delimited
import MockServices.Foundations.Enumeration
import MockServices.Foundations.FileSystem
import MockServices.Foundations.HandlerTables
import MockServices.Foundations.Hexadecimal
import MockServices.Foundations.Json
import MockServices.Foundations.Ledger
import MockServices.Foundations.LevelPattern
import MockServices.Foundations.Membership
import MockServices.Foundations.Numeral
import MockServices.Foundations.Outlets
import MockServices.Foundations.Pool
import MockServices.Foundations.Presence
import MockServices.Foundations.Probe
import MockServices.Foundations.Program
import MockServices.Foundations.Reader
import MockServices.Foundations.Run
import MockServices.Foundations.SegmentPath
import MockServices.Foundations.SlotTable
import MockServices.Foundations.StoredContents
import MockServices.Foundations.Tenure
import MockServices.Foundations.Throwing
import MockServices.Foundations.Trail
import MockServices.Foundations.Turnover
import MockServices.Foundations.Volume
import MockServices.Ftp.AccountRegistry
import MockServices.Ftp.AccountRoots
import MockServices.Ftp.Commands
import MockServices.Ftp.ConnectedUsers
import MockServices.Ftp.Connection
import MockServices.Ftp.Containment
import MockServices.Ftp.ControlStream
import MockServices.Ftp.Dispatch
import MockServices.Ftp.FileStore
import MockServices.Ftp.Frame
import MockServices.Ftp.LexicalPaths
import MockServices.Ftp.Listeners
import MockServices.Ftp.ListingFormat
import MockServices.Ftp.LoginIdentity
import MockServices.Ftp.PassiveMode
import MockServices.Ftp.PathResolution
import MockServices.Ftp.ReplyStream
import MockServices.Ftp.Service
import MockServices.Ftp.Sockets
import MockServices.Ftp.Stop
import MockServices.Ftp.TransferCompleteness
import MockServices.Ftp.WorkingDirectory
import MockServices.Http.RestDispatch
import MockServices.Http.RestErrors
import MockServices.Http.RestServer
import MockServices.Http.SoapDispatch
import MockServices.Http.SoapServer
import MockServices.Mqtt.ApplicationMessage
import MockServices.Mqtt.Broker
import MockServices.Mqtt.BufferReuse
import MockServices.Mqtt.ClientStream
import MockServices.Mqtt.Codec
import MockServices.Mqtt.Connack
import MockServices.Mqtt.ConnackFirst
import MockServices.Mqtt.DecoderReads
import MockServices.Mqtt.Delivery
import MockServices.Mqtt.Descriptors
import MockServices.Mqtt.Dialogue
import MockServices.Mqtt.Framing
import MockServices.Mqtt.History
import MockServices.Mqtt.Ownership
import MockServices.Mqtt.PublishForwarding
import MockServices.Mqtt.RemainingLength
import MockServices.Mqtt.StaleSessions
import MockServices.Mqtt.Stop
import MockServices.Mqtt.Suback
import MockServices.Mqtt.SubscribeGrammar
import MockServices.Mqtt.SubscriberStream
import MockServices.Mqtt.TopicMatching
import MockServices.Mqtt.Watched
import MockServices.Mqtt.Wire
import MockServices.Sftp.Accounts
import MockServices.Sftp.ActivityLog
import MockServices.Sftp.Authority
import MockServices.Sftp.Containment
import MockServices.Sftp.DataLoss
import MockServices.Sftp.Disk
import MockServices.Sftp.HandleKinds
import MockServices.Sftp.HandleTable
import MockServices.Sftp.HandlerRules
import MockServices.Sftp.Handlers
import MockServices.Sftp.Handshakes
import MockServices.Sftp.HostFile
import MockServices.Sftp.Listings
import MockServices.Sftp.Offsets
import MockServices.Sftp.OpenSemantics
import MockServices.Sftp.OpenStreams
import MockServices.Sftp.PathResolution
import MockServices.Sftp.ReadPermission
import MockServices.Sftp.RealPaths
import MockServices.Sftp.ReplyCount
import MockServices.Sftp.RootSpelling
import MockServices.Sftp.Service
import MockServices.Sftp.Sessions
import MockServices.Sftp.ShownNames
import MockServices.Sftp.SshCustody
import MockServices.Sftp.SshObjects
import MockServices.Sftp.Teardown
import MockServices.Sftp.Turns
import MockServices.Sftp.World
import MockServices.Text
