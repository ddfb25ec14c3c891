import Zapshare.Partition
import Zapshare.HelloRetry
import Zapshare.Authorization
import Zapshare.Strangers
import Zapshare.ClientStrangers
import Zapshare.Completion
import Zapshare.Recovery
import Zapshare.Duplication
import Zapshare.Discipline
import Zapshare.Binding
import Zapshare.SecureChannel
import Zapshare.Datagrams
import Zapshare.Status
import Zapshare.Stun
import Zapshare.Connecting
import Zapshare.Concurrency
import Zapshare.Conversation
import Zapshare.Commands
import Zapshare.Signals
import Zapshare.History
import Zapshare.Undisturbed
import Zapshare.Json.Library
