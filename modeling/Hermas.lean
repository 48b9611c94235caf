import Hermas.Base.Bytes
import Hermas.Base.Check
import Hermas.Base.Crc32
import Hermas.Base.Framed
import Hermas.Base.Graph
import Hermas.Base.Reach
import Hermas.Base.Simulation
import Hermas.Base.Status
import Hermas.Base.Table
import Hermas.Base.Verdict
import Hermas.Base.Worklist
import Hermas.Base.Assoc
import Hermas.Base.Walk
import Hermas.Base.Delimited
import Hermas.Base.DepthFirst
import Hermas.Base.Ledger
import Hermas.Base.Queue
import Hermas.Protocol.Frame
import Hermas.Journal.Accepted
import Hermas.Journal.History
import Hermas.Journal.Record
import Hermas.Journal.Restart
import Hermas.Journal.Scan
import Hermas.Journal.Writer
import Hermas.Image.Cycles
import Hermas.Image.Encode
import Hermas.Image.Facts
import Hermas.Image.Format
import Hermas.Image.Graph
import Hermas.Image.Lists
import Hermas.Image.Representation
import Hermas.Image.Validate
import Hermas.Image.Value
import Hermas.Image.Buffer
import Hermas.Image.Contract
import Hermas.Compiler.Decode
import Hermas.Compiler.Edges
import Hermas.Compiler.Kernel
import Hermas.Compiler.Loaders
import Hermas.Compiler.Ports
import Hermas.Compiler.Prefix
import Hermas.Compiler.Reach
import Hermas.Compiler.Regions
import Hermas.Compiler.Utf8
import Hermas.Compiler.Value
import Hermas.Compiler.Catalog
import Hermas.Compiler.GraphBuilder
import Hermas.Compiler.EncodeGraph
import Hermas.Compiler.Presentation
import Hermas.Compiler.Acyclic
import Hermas.Compiler.Readiness
import Hermas.Compiler.Schema
import Hermas.Compiler.SchemaResolve
import Hermas.Compiler.SchemaParse
import Hermas.Compiler.SchemaNames
import Hermas.Compiler.SchemaDepth
import Hermas.Compiler.SchemaText
import Hermas.Compiler.SchemaFingerprint
import Hermas.Compiler.SchemaOrder
import Hermas.Compiler.Declare
import Hermas.Compiler.SchemaCompile
import Hermas.Compiler.Script
import Hermas.Compiler.Emit
import Hermas.Compiler.Bindings
import Hermas.Compiler.Search
import Hermas.Compiler.WireSize
import Hermas.Compiler.ContractLookup
import Hermas.Runtime.Agreement
import Hermas.Runtime.Cutoff
import Hermas.Runtime.Each
import Hermas.Runtime.EachRun
import Hermas.Runtime.Group
import Hermas.Runtime.GroupRoute
import Hermas.Runtime.GroupRun
import Hermas.Runtime.GroupWait
import Hermas.Runtime.JoinOrder
import Hermas.Runtime.Refusal
import Hermas.Runtime.Result
import Hermas.Runtime.Route
import Hermas.Runtime.Sequential
import Hermas.Runtime.Storage
import Hermas.Runtime.Routing
import Hermas.Runtime.GroupRefusal
import Hermas.Runtime.Arena
import Hermas.Runtime.ArenaRun
import Hermas.Runtime.Concurrency
import Hermas.Runtime.Expiry
import Hermas.Saga.Driver
import Hermas.Saga.Log
import Hermas.Saga.LogHistory
import Hermas.Saga.LogScan
import Hermas.Saga.Plan
import Hermas.Saga.Recover
import Hermas.Saga.Resume
import Hermas.Saga.Steps
import Hermas.Saga.Token
import Hermas.Saga.TokenLog
import Hermas.Saga.Trace
import Hermas.Saga.Compensable
import Hermas.Saga.Ordinals
import Hermas.Result.ReadBack
import Hermas.Result.Store
import Hermas.Result.StoreLog
import Hermas.Daemon.Calls
import Hermas.Daemon.Connections
import Hermas.Daemon.Deliver
import Hermas.Daemon.Flight
import Hermas.Daemon.Loop
import Hermas.Daemon.Registry
import Hermas.Daemon.Run
import Hermas.Daemon.Slot
import Hermas.Daemon.Wired
import Hermas.Daemon.Registration
import Hermas.Daemon.Logs
import Hermas.Daemon.Durable
import Hermas.Daemon.Results
import Hermas.Daemon.Executions
import Hermas.Daemon.Control
import Hermas.Base.Monitor
import Hermas.Daemon.Sessions
import Hermas.Daemon.Clients
import Hermas.Daemon.Presentable
import Hermas.Daemon.Drops
import Hermas.Daemon.HermasHost
import Hermas.Daemon.Servers
import Hermas.Daemon.Delivered
import Hermas.Workspace.Agreed
import Hermas.Base.Pieces
import Hermas.Journal.File
import Hermas.Saga.LogFile
