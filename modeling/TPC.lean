import TPC.Lib.Prog
import TPC.Lib.Threads
import TPC.Lib.Fold
import TPC.Lib.Window
import TPC.Core.Arith
import TPC.Core.Machine
import TPC.Analytics.Models
import TPC.Analytics.ChunkView
import TPC.Analytics.Collection
import TPC.Analytics.Conversion
import TPC.Analytics.Basis
import TPC.Analytics.Svd
import TPC.Analytics.Grid
import TPC.Analytics.BasisModels
import TPC.Vtk.Exporter
import TPC.Analytics.Manager
import TPC.Analytics.Image
import TPC.Analytics.FieldSpec
import TPC.Analytics.SvdSpec
import TPC.Analytics.Lattice
import TPC.Lib.Segment
import TPC.Lib.Reader
import TPC.Vtk.Format
import TPC.Vtk.Mesh
import TPC.Vtk.Rows
import TPC.Lib.Staircase
import TPC.Vtk.Strip
import TPC.Lib.Sweep
import TPC.Vtk.Tiling
import TPC.Vtk.Topology
import TPC.Analytics.Topology
import TPC.Lib.Potential
import TPC.Analytics.DefaultField
import TPC.Lib.LeastSquares
import TPC.Analytics.TwoRings
import TPC.Analytics.Coherence
import TPC.Analytics.Containment
import TPC.Lib.Lockstep
import TPC.Core.Checked
import TPC.Analytics.Sizes
import TPC.Analytics.Readers
import TPC.Analytics.Representation
import TPC.Analytics.Reconstruction
import TPC.Analytics.Slice
import TPC.Lib.UnorderedMap
import TPC.System.FieldWorker
import TPC.System.Export
import TPC.System.FrameReceiver
import TPC.System.Client
import TPC.Lib.Runs
import TPC.System.Connection
import TPC.System.Poller
import TPC.Lib.Coro
import TPC.System.Restart
import TPC.System.Discovery
import TPC.System.Sessions
import TPC.System.Subscription
import TPC.System.Frame
import TPC.System.Telemetry
import TPC.System.EventHandler
import TPC.System.Deliveries
import TPC.System.Dispatch
import TPC.System.Destruction
import TPC.Vtk.Mirror
import TPC.Vtk.Solid
import TPC.Analytics.Clipped
import TPC.Analytics.Rounding
import TPC.Lib.NormalEquations
import TPC.Analytics.Fit
import TPC.Analytics.Symmetry
import TPC.Analytics.RingBias
import TPC.Lib.LockOrder
import TPC.System.Locking
import TPC.System.TestFrame
import TPC.System.FieldShutdown
import TPC.System.Response
import TPC.Vtk.Volume
import TPC.System.Pipeline
import TPC.System.Requests
import TPC.System.DataPath
import TPC.System.Joins
import TPC.Lib.TruncatedSVD
import TPC.Analytics.Threshold
import TPC.Analytics.Conditioning
import TPC.System.Recovery
