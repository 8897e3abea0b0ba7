import CacheSimulator.Library.Outcome
import CacheSimulator.Library.SetAssociative
import CacheSimulator.Library.Mesi.Protocol
import CacheSimulator.Library.Mesi.Preservation
import CacheSimulator.Library.Mesi.Histories
import CacheSimulator.Library.Mesi.System
import CacheSimulator.Library.Mesi.Residence
import CacheSimulator.Library.LittleEndian
import CacheSimulator.Library.Rewind
import CacheSimulator.Library.RadixTree
import CacheSimulator.Library.Recency
import CacheSimulator.Library.PlruTree
import CacheSimulator.Library.Lookaside
import CacheSimulator.Library.Capacity
import CacheSimulator.Library.SharedMemory
import CacheSimulator.Library.RingQueue
import CacheSimulator.Types
import CacheSimulator.Plru
import CacheSimulator.Memory
import CacheSimulator.Core
import CacheSimulator.Uncore
import CacheSimulator.Event
import CacheSimulator.Trace
import CacheSimulator.Renderer
import CacheSimulator.Cpu
import CacheSimulator.Os
import CacheSimulator.Run
import CacheSimulator.Threads
import CacheSimulator.Refinement.Address
import CacheSimulator.Refinement.State
import CacheSimulator.Refinement.LineView
import CacheSimulator.Refinement.Sharers
import CacheSimulator.Refinement.Update
import CacheSimulator.Refinement.Invariant
import CacheSimulator.Refinement.EvictL1
import CacheSimulator.Refinement.EvictL2
import CacheSimulator.Refinement.Prefetch
import CacheSimulator.Refinement.Snoop
import CacheSimulator.Refinement.Access
import CacheSimulator.Refinement.Read
import CacheSimulator.Refinement.Miss
import CacheSimulator.Refinement.Write
import CacheSimulator.Refinement.Call
import CacheSimulator.Refinement.Player
import CacheSimulator.Paging.Entries
import CacheSimulator.Paging.Frames
import CacheSimulator.Paging.Mapping
import CacheSimulator.Paging.Translation
import CacheSimulator.Paging.Accesses
import CacheSimulator.Paging.Calls
import CacheSimulator.Replay.Grid
import CacheSimulator.Replay.Traces
import CacheSimulator.Replay.Snoops
import CacheSimulator.Replay.Evictions
import CacheSimulator.Replay.Paths
import CacheSimulator.Replay.Calls
import CacheSimulator.Replay.Shadow
import CacheSimulator.Replay.Mirror
import CacheSimulator.Replay.Recorded
import CacheSimulator.Replay.Agreement
import CacheSimulator.Replay.Fetches
import CacheSimulator.Contract.Directory
import CacheSimulator.Contract.Aborts
import CacheSimulator.Refinement.DataFaults
import CacheSimulator.Contract.FlatMemory
import CacheSimulator.Contract.TraceFile
import CacheSimulator.Contract.TraceRange
import CacheSimulator.Contract.Translation
import CacheSimulator.Contract.Picture
import CacheSimulator.Contract.Statistics
import CacheSimulator.Contract.Steps
import CacheSimulator.Contract.Rewinding
import CacheSimulator.Contract.Instructions
import CacheSimulator.Contract.Residence
import CacheSimulator.Contract.InMemory
import CacheSimulator.Contract.Navigation
import CacheSimulator.Contract.Replacement
import CacheSimulator.Contract.Allocator
import CacheSimulator.Contract.Mappings
import CacheSimulator.Contract.FreshPages
import CacheSimulator.Contract.Resuming
import CacheSimulator.Prefetching.Window
import CacheSimulator.Prefetching.Hits
import CacheSimulator.Prefetching.Bursts
import CacheSimulator.Prefetching.Streams
import CacheSimulator.Prefetching.Demand
import CacheSimulator.Prefetching.Entries
import CacheSimulator.Contract.Streams
import CacheSimulator.Contract.Coherence
import CacheSimulator.Contract.Credits
import CacheSimulator.Contract.Separation
import CacheSimulator.Contract.Scan
import CacheSimulator.Paging.Alignment
import CacheSimulator.WorkingSet.Pages
import CacheSimulator.WorkingSet.Fills
import CacheSimulator.WorkingSet.Calls
import CacheSimulator.WorkingSet.Counters
import CacheSimulator.Contract.WorkingSet
import CacheSimulator.WorkingSet.Translation
import CacheSimulator.WorkingSet.Programs
import CacheSimulator.Benchmarks.Setup
import CacheSimulator.Benchmarks.Counters
import CacheSimulator.Benchmarks.Queue.Threads
import CacheSimulator.Benchmarks.Queue.Turns
import CacheSimulator.Benchmarks.Queue.Progress
import CacheSimulator.Benchmarks.ProducerConsumer
import CacheSimulator.Viewer
import CacheSimulator.Viewing.Drawing
import CacheSimulator.Viewing.Frames
import CacheSimulator.Viewing.Recordings
import CacheSimulator.Contract.Viewing
import CacheSimulator.Contract.Playing
import CacheSimulator.Library.VirtualMemory
import CacheSimulator.Processes.Runs
import CacheSimulator.Processes.Contents
import CacheSimulator.Processes.Memory
import CacheSimulator.Contract.Processes
