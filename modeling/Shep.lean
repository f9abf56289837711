import Shep.Action.Waits
import Shep.Adoption.Agreement
import Shep.Ansi.Language
import Shep.Bark.Clock
import Shep.Bark.Debounce
import Shep.Bark.Ring
import Shep.Bark.Window
import Shep.Boot.Liveness
import Shep.Bus.Within
import Shep.Channel.Replies
import Shep.Config.Doors
import Shep.Copy.Planned
import Shep.Cron.Worker
import Shep.Dogs.Fair
import Shep.Dotenv.Faithful
import Shep.Frame.Codec
import Shep.Gate.Acting
import Shep.Gate.Pinning
import Shep.Graph.Declared
import Shep.Graph.Helpers.Knots
import Shep.Graph.Plan
import Shep.Graph.Prompt
import Shep.Json5.Depth
import Shep.Limits.Readings
import Shep.Limits.Sums
import Shep.Link.Quiesce
import Shep.LogPath.Ancestry
import Shep.Logs.Conserved
import Shep.Logs.Tail
import Shep.Metrics.Exporters
import Shep.Metrics.Starts
import Shep.Normalize.Restored
import Shep.Pm2.Preserved
import Shep.Restart.Backoff
import Shep.Roll.Agreed
import Shep.Roll.Members
import Shep.Rotation.Told
import Shep.Secrets.Cache
import Shep.Secrets.Pushes
import Shep.Sections.Settled
import Shep.Serve.Messages
import Shep.Supervisor.Departure
import Shep.Supervisor.Disabled
import Shep.Supervisor.Handover
import Shep.Supervisor.Identity
import Shep.Supervisor.Instances
import Shep.Supervisor.Lifecycle
import Shep.Supervisor.Ownership
import Shep.Supervisor.Panic
import Shep.Supervisor.Replies
import Shep.Supervisor.Rollout
import Shep.Supervisor.Scale
import Shep.Supervisor.Shutdown
import Shep.Supervisor.Starting
import Shep.Supervisor.Stops
import Shep.Supervisor.Swaps
import Shep.Supervisor.Timers
import Shep.Sweep.Safe
import Shep.Template.Passes
import Shep.Values.Codec
import Shep.Walk.Ordered
