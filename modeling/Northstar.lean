import Northstar.Runtime.Model
import Northstar.Runtime.Repository
import Northstar.Runtime.Island
import Northstar.Runtime.State
import Northstar.Runtime.Engine
import Northstar.Runtime.Frame
import Northstar.Runtime.Operations
import Northstar.Runtime.Invariants
import Northstar.Runtime.Start
import Northstar.Runtime.Teardown
import Northstar.Runtime.Requests
import Northstar.Runtime.System
import Northstar.Runtime.Races
import Northstar.Runtime.Processes
import Northstar.Runtime.Lifecycle
import Northstar.Runtime.Exits
import Northstar.Runtime.Roundtrips
import Northstar.Runtime.Stops
import Northstar.Api.Codec
import Northstar.Api.Framed
import Northstar.Api.Client
import Northstar.Api.Calls
