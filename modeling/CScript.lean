import CScript.Foundation.LinearProbe
import CScript.Foundation.OrderedMap
import CScript.Foundation.Refinement
import CScript.Runtime.Value
import CScript.Runtime.Table
import CScript.Runtime.TableInvariant
import CScript.Runtime.TableRefinement
import CScript.Runtime.Shape
import CScript.Runtime.ObjectBag
import CScript.Runtime.BagRefinement
import CScript.Runtime.BigInt
import CScript.Runtime.BigIntArithmetic
import CScript.Runtime.ValueEquality
import CScript.Native.Map
import CScript.Native.MapRefinement
import CScript.Native.Json
import CScript.Native.JsonRoundTrip
import CScript.Foundation.Marking
import CScript.Runtime.Heap
import CScript.Runtime.Memory
import CScript.Runtime.WeakReferences
import CScript.Runtime.MemoryMarking
import CScript.Runtime.MemoryExact
import CScript.Runtime.PropertyOps
import CScript.Runtime.PropertySound
import CScript.Runtime.Integrity
import CScript.Runtime.InlineCache
import CScript.Runtime.CacheTransparency
import CScript.Regex.Program
import CScript.Regex.Compile
import CScript.Regex.Syntax
import CScript.Regex.Emission
import CScript.Regex.Parsing
import CScript.Regex.Relocation
import CScript.Regex.Match
import CScript.Regex.Cursor
import CScript.Regex.Reference
import CScript.Regex.Simulation
import CScript.Event.EventLoop
import CScript.Event.Delivery
import CScript.Event.Registration
import CScript.Event.AsyncGenerator
import CScript.Event.Requests
import CScript.Event.Timers
import CScript.Jit.Ir
import CScript.Jit.Tiering
import CScript.Jit.Doors
import CScript.Compiler.TypeTable
import CScript.Compiler.Bytecode
import CScript.Regex.Quantifier
import CScript.Foundation.PermitQueue
import CScript.Library.SyncLock
import CScript.Library.Cache
import CScript.Library.Channel
import CScript.Library.Compare
import CScript.Library.Diff
import CScript.Library.DisjointSet
import CScript.Library.Events
import CScript.Foundation.RoundingModes
import CScript.Foundation.Rounding
import CScript.Library.Encoding
import CScript.Library.Utf8
import CScript.Library.Csv
import CScript.Library.Bits
import CScript.Library.Url
import CScript.Library.Path
import CScript.Library.Decimal
import CScript.Library.DecimalExact
import CScript.Library.DecimalText
import CScript.Library.DecimalLaws
import CScript.Library.Json
import CScript.Library.JsonText
import CScript.Library.JsonReader
import CScript.Library.JsonOrder
import CScript.Library.JsonLaws
import CScript.Foundation.KeySort
import CScript.Regex.Moves
import CScript.Regex.Lookbehind
import CScript.Regex.Traced
import CScript.Regex.Captures
import CScript.Regex.Loops
import CScript.Regex.Exhaustion
import CScript.Runtime.Module
import CScript.Runtime.ModuleOrder
import CScript.Runtime.ModuleRuns
import CScript.Runtime.AccessorHolders
import CScript.Runtime.ComputedReads
import CScript.Runtime.PropertyRemoval
import CScript.Runtime.TableVersions
import CScript.Native.MapKeys
import CScript.Native.MapShape
import CScript.Native.MapWalk
import CScript.Native.WeakMap
import CScript.Runtime.BigIntDivision
import CScript.Runtime.BigIntText
import CScript.Runtime.NumberValue
import CScript.Runtime.BigIntNumbers
import CScript.Native.RegexReplace
import CScript.Native.NativeCall
import CScript.Native.ArraySort
import CScript.Native.SortRun
import CScript.Native.ArrayCallbacks
import CScript.Native.StringReplace
import CScript.Native.ReplaceBuffer
import CScript.Native.ReplaceMatches
import CScript.Native.StringSearch
import CScript.Native.RegexSplit
import CScript.Foundation.Gregorian
import CScript.Native.Date
import CScript.Foundation.Formatted
import CScript.Native.DateComponents
import CScript.Native.DateText
import CScript.Foundation.Numerals
import CScript.Foundation.JsonGrammar
import CScript.Native.JsonAcceptance
import CScript.Native.JsonAccessors
import CScript.Runtime.NumberText
import CScript.Foundation.Descent
import CScript.Runtime.Rendering
import CScript.Native.JsonTermination
import CScript.Runtime.FiberChain
import CScript.Runtime.FiberInvisible
import CScript.Runtime.Fiber
import CScript.Runtime.FiberSwitching
import CScript.Runtime.FiberReturns
import CScript.Foundation.DescendingList
import CScript.Runtime.Upvalue
import CScript.Runtime.UpvalueMoves
import CScript.Runtime.UpvalueSharing
import CScript.Runtime.Iteration
import CScript.Runtime.NumberConversion
import CScript.Compiler.NumberLiteral
import CScript.Compiler.TemplateLiteral
import CScript.Compiler.TypeUnion
import CScript.Compiler.DeclaredTypes
import CScript.Runtime.Remainder
import CScript.Foundation.Blocks
import CScript.Runtime.FusedInstructions
import CScript.Jit.Frame
import CScript.Jit.Replay
import CScript.Jit.Allocation
import CScript.Jit.AllocationScan
import CScript.Jit.AllocationSound
import CScript.Jit.AllocationExact
import CScript.Foundation.BinaryHeap
import CScript.Library.PriorityQueue
import CScript.Library.Deque
import CScript.Library.Hash
