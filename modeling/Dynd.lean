import Dynd.Lib.Horner
import Dynd.Lib.Except
import Dynd.Bytes
import Dynd.UInt128
import Dynd.ParseUInt
import Dynd.Utf8
import Dynd.StringEncodings
import Dynd.Lib.Progression
import Dynd.LinearIndex
import Dynd.Broadcast
import Dynd.ArrayViews
import Dynd.ParserUtil
import Dynd.SkipJson
import Dynd.DateParser
import Dynd.DateText
import Dynd.DatetimeUtil
import Dynd.Int128
import Dynd.JsonEscapes
import Dynd.DatetimeParser
import Dynd.DatetimeRoundTrip
import Dynd.MidnightTime
import Dynd.Lib.DenseLayout
import Dynd.ReorderStrides
import Dynd.CodePoints
import Dynd.Lib.ChunkIterator
import Dynd.Lib.Everywhere
import Dynd.StringAssign
import Dynd.StringIter
import Dynd.StringIterLaw
import Dynd.SubstituteTypevars
import Dynd.Permute
import Dynd.Lib.Heap
import Dynd.ObjectArrayMemoryBlock
import Dynd.PodMemoryBlock
import Dynd.DimFragment
import Dynd.Categorical
import Dynd.AssignmentKernels
import Dynd.CompareKernels
import Dynd.ArrayElements
import Dynd.ExprType
import Dynd.LazyIndex
import Dynd.Lib.LocalUpdates
import Dynd.LiftedReduction
import Dynd.LiftedReductionLaw
import Dynd.ParseNumber
import Dynd.Lib.TopologicalOrder
import Dynd.Multidispatch
import Dynd.Float16
import Dynd.Kwds
import Dynd.PointerType
import Dynd.FixedString
import Dynd.Lib.WordOrder
import Dynd.StringCompare
import Dynd.Lib.DenseTiling
import Dynd.BroadcastToShape
import Dynd.AxisStrides
import Dynd.AxisOrder
import Dynd.AxisPerm
import Dynd.Reshape
import Dynd.ErrorLocation
import Dynd.TimeOfDay
import Dynd.NodashesDatetime
import Dynd.EscapedString
import Dynd.JsonStringText
import Dynd.Lib.Strided
import Dynd.Lib.RowMajor
import Dynd.MultidispatchCycles
import Dynd.SubstituteIdentity
import Dynd.BinarySearch
import Dynd.BuiltinCompare
import Dynd.OptionAssign
import Dynd.BufferedKernels
import Dynd.ElwiseVar
import Dynd.DatashapeSizes
import Dynd.BytesView
import Dynd.MultiIndexLaw
import Dynd.Availability
import Dynd.Byteswap
import Dynd.TupleComparison
import Dynd.Positional
import Dynd.MultidispatchResolve
import Dynd.Take
import Dynd.Rolling
import Dynd.Neighborhood
import Dynd.Groupby
import Dynd.ArrayIter
import Dynd.ArgPermute
import Dynd.TakeByPointer
import Dynd.Outer
import Dynd.StructAssign
import Dynd.EpochAdapters
import Dynd.ArrayRange
import Dynd.DateReplace
import Dynd.DatetimeComponents
import Dynd.DatetimeProperties
import Dynd.SavedBegin
import Dynd.KernelBuilder
import Dynd.StructLayout
import Dynd.ArrmetaConstruct
import Dynd.Strftime
import Dynd.TypePromotion
import Dynd.StridedSummary
import Dynd.ScalarAvail
import Dynd.LosslessAssign
import Dynd.ElwiseExpr
import Dynd.DimAssign
import Dynd.ExprAssign
import Dynd.BroadcastLeast
import Dynd.AxisRoundTrip
import Dynd.DispatchChoice
