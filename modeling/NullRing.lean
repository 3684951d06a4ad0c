import NullRing.FixedPoint.RoundTrip
import NullRing.FixedPoint.Decimal
import NullRing.FixedPoint.Parts
import NullRing.FixedPoint.Reorder
import NullRing.Evaluator.Monotone
import NullRing.Evaluator.Table
import NullRing.RingBuffer.Linearizable
import NullRing.RingBuffer.StaleLoads
import NullRing.RingBuffer.Guard
import NullRing.RingBuffer.Snapshot
import NullRing.RingBuffer.Transfer
import NullRing.RingBuffer.StoreBuffering
import NullRing.MemoryPool.ConcurrentAllocate
import NullRing.MemoryPool.SingleAllocator
import NullRing.MemoryPool.CasFailures
import NullRing.MemoryPool.MemorySafety
import NullRing.MemoryPool.Disciplines
import NullRing.Engine.SingleConsumer
import NullRing.Engine.Drain
import NullRing.Engine.Shutdown
import NullRing.Engine.Watermark
import NullRing.Engine.FailedStart
import NullRing.Engine.DrainBound
import NullRing.Engine.StopReturns
import NullRing.Engine.Latency
import NullRing.Engine.Service
import NullRing.Engine.Handover
