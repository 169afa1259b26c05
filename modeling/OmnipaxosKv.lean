import OmnipaxosKv.Lib.Machine
import OmnipaxosKv.Lib.Edits
import OmnipaxosKv.Lib.Framing
import OmnipaxosKv.Lib.Linearizability
import OmnipaxosKv.Lib.Checks
import OmnipaxosKv.Lib.Dict
import OmnipaxosKv.Common
import OmnipaxosKv.Snapshot
import OmnipaxosKv.Handshake
import OmnipaxosKv.Connection.Writer
import OmnipaxosKv.Connection.Pipe
import OmnipaxosKv.Server.Network
import OmnipaxosKv.Server.Bootstrap
import OmnipaxosKv.Server.Tables
import OmnipaxosKv.Server.OmniPaxos
import OmnipaxosKv.Server.Server
import OmnipaxosKv.Server.Replica
import OmnipaxosKv.Client.Network
import OmnipaxosKv.Client.Session
import OmnipaxosKv.Client.Shim
import OmnipaxosKv.Client.Pending
import OmnipaxosKv.Client.Handoff
import OmnipaxosKv.Client.Tickets
import OmnipaxosKv.Client.Client
import OmnipaxosKv.Client.Endpoint
import OmnipaxosKv.Client.Collection
import OmnipaxosKv.Server.Ledger
import OmnipaxosKv.Server.Traffic
import OmnipaxosKv.Server.Node
import OmnipaxosKv.Cluster.Cluster
import OmnipaxosKv.Cluster.Links
import OmnipaxosKv.Cluster.Provenance
import OmnipaxosKv.Cluster.Responses
import OmnipaxosKv.Client.Started
import OmnipaxosKv.Cluster.History
import OmnipaxosKv.Cluster.Linearizable
import OmnipaxosKv.Jepsen.Client
import OmnipaxosKv.Jepsen.Run
import OmnipaxosKv.Jepsen.Soundness
import OmnipaxosKv.Jepsen.Outcomes
import OmnipaxosKv.Jepsen.Context
import OmnipaxosKv.Jepsen.Generator
import OmnipaxosKv.Jepsen.Interpreter
import OmnipaxosKv.Jepsen.Journal
import OmnipaxosKv.Jepsen.Plan
import OmnipaxosKv.Jepsen.Phases
import OmnipaxosKv.Jepsen.Workload
import OmnipaxosKv.Jepsen.Register
import OmnipaxosKv.Jepsen.Harness
import OmnipaxosKv.Jepsen.Linked
import OmnipaxosKv.Jepsen.Checked
import OmnipaxosKv.Cluster.StartSignal
import OmnipaxosKv.Cluster.Progress
import OmnipaxosKv.Deployment.Configs
import OmnipaxosKv.Deployment.Cluster
import OmnipaxosKv.Jepsen.Checker
import OmnipaxosKv.Jepsen.Ending
import OmnipaxosKv.Jepsen.Calls
import OmnipaxosKv.Jepsen.Db
import OmnipaxosKv.Jepsen.Sessions
import OmnipaxosKv.Jepsen.Test
