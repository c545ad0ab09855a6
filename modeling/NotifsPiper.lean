import NotifsPiper.Jobs
import NotifsPiper.LogsManager
import NotifsPiper.Runs
import NotifsPiper.Execution
import NotifsPiper.Recency
import NotifsPiper.Answers
import NotifsPiper.Capacity
import NotifsPiper.Signals
import NotifsPiper.Framing
import NotifsPiper.Daemon
import NotifsPiper.Identity
import NotifsPiper.Expiry
import NotifsPiper.Wakeups
import NotifsPiper.Rendezvous
import NotifsPiper.Replies
import NotifsPiper.Storage
import NotifsPiper.Delivery
import NotifsPiper.Broadcasts
import NotifsPiper.Requests
import NotifsPiper.Startup
import NotifsPiper.Watchers
import NotifsPiper.Fanout
import NotifsPiper.Stalls
import NotifsPiper.Sessions
import NotifsPiper.Frames
import NotifsPiper.Forced
import NotifsPiper.Reading
import NotifsPiper.Reception
import NotifsPiper.Decoding
import NotifsPiper.Writing
import NotifsPiper.Deadlines
import NotifsPiper.Serial
import NotifsPiper.Rest
import NotifsPiper.Routing
import NotifsPiper.Waiting
import NotifsPiper.Closing
import NotifsPiper.Origins
import NotifsPiper.Clients
import NotifsPiper.Piping
import NotifsPiper.Linear
import NotifsPiper.Grammar
import NotifsPiper.Recovery
import NotifsPiper.Rivals
import NotifsPiper.Shutdown
import NotifsPiper.GroupCommit
import NotifsPiper.Restarts
import NotifsPiper.Causes
import NotifsPiper.Dismissal
import NotifsPiper.Options
