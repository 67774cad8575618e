import NpuPlugin.AddEnqueueOps.Model
import NpuPlugin.AddEnqueueOps.Runs
import NpuPlugin.AsyncDepsInfo.Model
import NpuPlugin.BarrierInfo.OptimizeOrder
import NpuPlugin.BarrierComputation.NextSameId
import NpuPlugin.BarrierInfo.SingleWaitRuns
import NpuPlugin.BarrierInfo.SplitSynchronised
import NpuPlugin.BarrierInfo.VariantSplit
import NpuPlugin.BarrierLegalization.Reordering
import NpuPlugin.BarrierSimulator.Assignment
import NpuPlugin.BarrierSimulator.ControlMap
import NpuPlugin.BarrierSimulator.Verdict
import NpuPlugin.BarrierTopologicalMapping.Mapped
import NpuPlugin.BarrierTopologicalMapping.Model
import NpuPlugin.ControlEdges.Completeness
import NpuPlugin.DMABarrierOptimization.Optimized
import NpuPlugin.DMATransaction.SpaceToDepth
import NpuPlugin.DMATransaction.Model
import NpuPlugin.Distribution.Overlapped
import NpuPlugin.LinearScan.Runs
import NpuPlugin.Partitioner.Runs
import NpuPlugin.PrefetchDataOps.Reordered
import NpuPlugin.ReduceBarrierDependencies.Reduced
import NpuPlugin.SEAttributes.Padding
import NpuPlugin.SEAttributes.Model
import NpuPlugin.Tiling.Divided
import NpuPlugin.WeightsTable.Relocation
import NpuPlugin.WorkloadManagement.Fetches
import NpuPlugin.RepeatingCalls.Preserved
import NpuPlugin.FeasibleMemorySchedulerSpilling.DataSpills
import NpuPlugin.FunctionOutlining.NaiveCalls
import NpuPlugin.ConstTransformations.SplatBuffer
import NpuPlugin.ConstTransformations.Swizzle
import NpuPlugin.ConstTransformations.Transpose
import NpuPlugin.Tiling.BackInferred
import NpuPlugin.Tiling.Pad
import NpuPlugin.Distribution.ClusterPadding
import NpuPlugin.ConstantFolding.Cache
import NpuPlugin.Utils.AxesMapping
import NpuPlugin.Utils.PermuteUtils
import NpuPlugin.Tiling.LayerStrategy
import NpuPlugin.ConstTransformations.Sparsify
import NpuPlugin.Utils.SwizzlingUtils
import NpuPlugin.PrefetchDataOps.Model
import NpuPlugin.ControlEdges.Model
import NpuPlugin.WeightsTable.InstructionList
import NpuPlugin.Utils.StrideReqs
import NpuPlugin.Utils.Subspaces
import NpuPlugin.Utils.DimsOrder
import NpuPlugin.Utils.ReshapeUtils
import NpuPlugin.Halos.SegmentHalos
import NpuPlugin.DMATransaction.CopyTiles
import NpuPlugin.DMATransaction.PermuteRewriter
