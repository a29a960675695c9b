import Pyjamaz.Library.TwosComplement
import Pyjamaz.Library.Result
import Pyjamaz.Library.Dict
import Pyjamaz.Library.Octets
import Pyjamaz.Library.SortedSet
import Pyjamaz.Library.Sums
import Pyjamaz.Library.Paged
import Pyjamaz.Library.Peeling
import Pyjamaz.Library.Bisect
import Pyjamaz.Library.Iteration
import Pyjamaz.Library.Tally
import Pyjamaz.Library.HashTree
import Pyjamaz.Library.Encoding
import Pyjamaz.Library.BinaryCounter
import Pyjamaz.Library.Layout
import Pyjamaz.Library.Shuffle
import Pyjamaz.Library.Numerals
import Pyjamaz.Pvm.Opcode
import Pyjamaz.Pvm.Loader
import Pyjamaz.Pvm.Machine
import Pyjamaz.Pvm.Graypaper
import Pyjamaz.Pvm.CPython
import Pyjamaz.Pvm.Numba
import Pyjamaz.Pvm.Helpers
import Pyjamaz.Pvm.RegisterOps
import Pyjamaz.Pvm.WideArithmetic
import Pyjamaz.Pvm.RegisterAgreement
import Pyjamaz.Pvm.Program
import Pyjamaz.Pvm.ControlFlow
import Pyjamaz.Pvm.ControlAgreement
import Pyjamaz.Pvm.Interpreter
import Pyjamaz.Pvm.Sessions
import Pyjamaz.Pvm.Memory
import Pyjamaz.Pvm.MemoryAgreement
import Pyjamaz.Pvm.MemoryStates
import Pyjamaz.Pvm.Runs
import Pyjamaz.Pvm.DataAccess
import Pyjamaz.Pvm.Decoding
import Pyjamaz.Pvm.BasicBlocks
import Pyjamaz.Pvm.InstructionCost
import Pyjamaz.Pvm.BlockGas
import Pyjamaz.Pvm.BlockGasRuns
import Pyjamaz.Pvm.BlockGasPruning
import Pyjamaz.State.Storage
import Pyjamaz.State.Import
import Pyjamaz.Services.Account
import Pyjamaz.Services.State
import Pyjamaz.Services.Overlay
import Pyjamaz.Services.View
import Pyjamaz.Accumulation.Components
import Pyjamaz.Accumulation.Merge
import Pyjamaz.Accumulation.Parallel
import Pyjamaz.Accumulation.Order
import Pyjamaz.Accumulation.Privileges
import Pyjamaz.Accumulation.Sequential
import Pyjamaz.Accumulation.Overlay
import Pyjamaz.Accumulation.Preimages
import Pyjamaz.Accumulation.MergedViews
import Pyjamaz.Accumulation.MergedAccounts
import Pyjamaz.HostCalls.Context
import Pyjamaz.HostCalls.Accumulate
import Pyjamaz.HostCalls.Effects
import Pyjamaz.HostCalls.GrowHeap
import Pyjamaz.HostCalls.Invocation
import Pyjamaz.HostCalls.Conservation
import Pyjamaz.HostCalls.Lookups
import Pyjamaz.HostCalls.ServiceIds
import Pyjamaz.HostCalls.ServiceRegisters
import Pyjamaz.HostCalls.Rollback
import Pyjamaz.HostCalls.Views
import Pyjamaz.HostCalls.Footprint
import Pyjamaz.HostCalls.Solvency
import Pyjamaz.HostCalls.Preimages
import Pyjamaz.HostCalls.Ejection
import Pyjamaz.HostCalls.Inflation
import Pyjamaz.HostCalls.Refine
import Pyjamaz.HostCalls.General
import Pyjamaz.HostCalls.RefineCalls
import Pyjamaz.HostCalls.Driver
import Pyjamaz.HostCalls.Mutators
import Pyjamaz.HostCalls.NativeGas
import Pyjamaz.HostCalls.GasDiscipline
import Pyjamaz.Safrole.SealingSeries
import Pyjamaz.Safrole.TicketAccumulator
import Pyjamaz.Services.Keys
import Pyjamaz.State.Finality
import Pyjamaz.State.Agreement
import Pyjamaz.Pipeline.Reports
import Pyjamaz.Pipeline.Layers
import Pyjamaz.Pipeline.Queue
import Pyjamaz.Pipeline.Distinct
import Pyjamaz.Pipeline.Edits
import Pyjamaz.Pipeline.Availability
import Pyjamaz.Merkle.ConstantDepth
import Pyjamaz.Merkle.Trie
import Pyjamaz.Merkle.MountainRange
import Pyjamaz.Assurances.Pipeline
import Pyjamaz.Assurances.Guarantors
import Pyjamaz.Transport.Framing
import Pyjamaz.Transport.PeerId
import Pyjamaz.Runtime.BlockCollector
import Pyjamaz.Runtime.ExtrinsicCollector
import Pyjamaz.Runtime.OwnExtrinsics
import Pyjamaz.Runtime.ImportQueue
import Pyjamaz.State.Production
import Pyjamaz.State.Ancestry
import Pyjamaz.Pvm.Instructions
import Pyjamaz.Pvm.RegisterSets
import Pyjamaz.Pvm.WholeRuns
import Pyjamaz.Library.Decoders
import Pyjamaz.Refinement.DataStore
import Pyjamaz.Runtime.RefinePipeline
import Pyjamaz.Runtime.RefineSteps
import Pyjamaz.Runtime.RefineRuns
import Pyjamaz.Refinement.WorkPackage
import Pyjamaz.Refinement.Bundle
import Pyjamaz.Refinement.Report
import Pyjamaz.Refinement.Checks
import Pyjamaz.Refinement.Parts
import Pyjamaz.Refinement.Pages
import Pyjamaz.Refinement.ErasureLayout
import Pyjamaz.Library.Vrf
import Pyjamaz.Chain.Header
import Pyjamaz.Chain.Consensus
import Pyjamaz.Chain.SealingKeys
import Pyjamaz.Chain.Marks
import Pyjamaz.Chain.Rotations
import Pyjamaz.Chain.Production
import Pyjamaz.Library.Window
import Pyjamaz.Chain.RecentHistory
import Pyjamaz.Chain.Authorizations
import Pyjamaz.Chain.Statistics
