import Vuknob.Library.BlockWriter
import Vuknob.Library.Chains
import Vuknob.Library.CircularBuffer
import Vuknob.Library.Countdown
import Vuknob.Library.Cyclic
import Vuknob.Library.Delivery
import Vuknob.Library.DepthFirst
import Vuknob.Library.Dispatch
import Vuknob.Library.FileDescriptors
import Vuknob.Library.Forest
import Vuknob.Library.Grid
import Vuknob.Library.Loops
import Vuknob.Library.Monitor
import Vuknob.Library.Overwrite
import Vuknob.Library.Ownership
import Vuknob.Library.Multimap
import Vuknob.Library.OrderedMap
import Vuknob.Library.Pending
import Vuknob.Library.Pairing
import Vuknob.Library.PointerList
import Vuknob.Library.Replicas
import Vuknob.Library.Ring
import Vuknob.Library.Runs
import Vuknob.Library.Scanning
import Vuknob.Library.SortedLinks
import Vuknob.Library.SharedLinks
import Vuknob.Library.Timetable
import Vuknob.Base.CInt
import Vuknob.Base.FixedPoint
import Vuknob.Base.StdString
import Vuknob.Base.Number
import Vuknob.Base.Xml
import Vuknob.Machine.Space
import Vuknob.Machine.RenderChain
import Vuknob.Machine.Network
import Vuknob.Machine.Acyclic
import Vuknob.Machine.Wiring
import Vuknob.Machine.Connections
import Vuknob.Machine.Sound
import Vuknob.Machine.Destruction
import Vuknob.Machine.Careful
import Vuknob.Machine.Tight
import Vuknob.Machine.Names
import Vuknob.Machine.Project
import Vuknob.Machine.Refinement
import Vuknob.Machine.Atomic
import Vuknob.Machine.Operations
import Vuknob.Machine.Completion
import Vuknob.Machine.LockDepth
import Vuknob.Machine.Creation
import Vuknob.Remote.Serialize
import Vuknob.Remote.Message
import Vuknob.Remote.Items
import Vuknob.Remote.Framing
import Vuknob.Remote.ReadLoop
import Vuknob.Remote.RoundTrip
import Vuknob.Remote.Transmission
import Vuknob.Remote.Shortcut
import Vuknob.Remote.MessagePool
import Vuknob.Remote.ByteArrays
import Vuknob.Remote.Replies
import Vuknob.Remote.Creation
import Vuknob.Remote.ObjectSets
import Vuknob.Remote.MachineConnections
import Vuknob.Remote.Shapes
import Vuknob.Remote.ShapeRoundTrip
import Vuknob.Remote.ScaleQueries
import Vuknob.Remote.RemoteControllers
import Vuknob.Remote.ControllerDescriptions
import Vuknob.Remote.ControllerSessions
import Vuknob.Remote.ControllerSettings
import Vuknob.Sequence.State
import Vuknob.Sequence.Handlers
import Vuknob.Sequence.Replication
import Vuknob.Sequence.Requests
import Vuknob.Sequence.Snapshot
import Vuknob.Sequence.Allocator
import Vuknob.Sequence.Pointers
import Vuknob.Sequence.CellList
import Vuknob.Sequence.Insertion
import Vuknob.Sequence.Cells
import Vuknob.Sequence.Servers
import Vuknob.Sequence.Instances
import Vuknob.Midi.EventBuilder
import Vuknob.Midi.FileChunk
import Vuknob.Midi.VariableLength
import Vuknob.Midi.Chains
import Vuknob.Midi.Calls
import Vuknob.Midi.Recycling
import Vuknob.Midi.Fifo
import Vuknob.Midi.RawMessages
import Vuknob.Clock.Transport
import Vuknob.Clock.Ticks
import Vuknob.Clock.LoopRegion
import Vuknob.Clock.Phase
import Vuknob.Clock.Ranges
import Vuknob.Clock.Sequencer
import Vuknob.Clock.Progress
import Vuknob.Playback.Loop
import Vuknob.Playback.LoopNotes
import Vuknob.Playback.Arpeggiator
import Vuknob.Playback.PadMotion
import Vuknob.Playback.Pad
import Vuknob.Playback.PadRecording
import Vuknob.Playback.ArpNotes
import Vuknob.Playback.ArpFingers
import Vuknob.Playback.ArpHistory
import Vuknob.Playback.ArpPlaying
import Vuknob.Playback.MotionNotes
import Vuknob.Playback.MotionReplay
import Vuknob.Playback.PadTick
import Vuknob.Playback.PadNotes
import Vuknob.Playback.PadSilence
import Vuknob.Playback.PadOrder
import Vuknob.Playback.PadExport
import Vuknob.Playback.PadReplay
import Vuknob.Playback.LoopExport
import Vuknob.Playback.ExportNotes
import Vuknob.Playback.LoopTiming
import Vuknob.Playback.LoopEdit
import Vuknob.Playback.LoopCursors
import Vuknob.Playback.LoopStore
import Vuknob.Playback.SequenceLengths
import Vuknob.Playback.LoopPlacement
import Vuknob.Playback.SequencerFile
import Vuknob.Playback.MidiTrack
import Vuknob.Playback.MidiTiming
import Vuknob.Playback.MidiFile
import Vuknob.Playback.PadFile
import Vuknob.Playback.PadAccess
import Vuknob.Playback.Envelope
import Vuknob.Playback.EnvelopeEdits
import Vuknob.Playback.EnvelopeFile
import Vuknob.Playback.DataBytes
import Vuknob.Playback.EventSources
import Vuknob.Playback.WaveWriters
import Vuknob.Playback.Recorder
import Vuknob.Playback.Recordings
import Vuknob.Dynlib.LibEnvelope
import Vuknob.Dynlib.EnvelopeRange
import Vuknob.Dynlib.DelayLine
import Vuknob.Dynlib.SamplerVoices
import Vuknob.Dynlib.VoiceReads
import Vuknob.Dynlib.SamplerAmplitude
import Vuknob.Dynlib.VoiceLife
import Vuknob.Samples.StaticSignal
import Vuknob.Queue.ReaderWriterQueue
import Vuknob.Queue.BlockSizes
import Vuknob.Queue.BlockRing
import Vuknob.Queue.ConsumerSteps
import Vuknob.Queue.ProducerSteps
import Vuknob.Queue.Linearization
import Vuknob.Queue.Calls
import Vuknob.Queue.Returns
import Vuknob.Queue.AsyncOperations
import Vuknob.Queue.EventPool
import Vuknob.Machine.Premix
import Vuknob.Machine.SignalPointers
import Vuknob.Machine.Execute
import Vuknob.Machine.Controllers
import Vuknob.Samples.SignalStorage
import Vuknob.Samples.WavLoader
import Vuknob.Samples.RamConversion
import Vuknob.Samples.SampleLevels
import Vuknob.Samples.WavSafety
import Vuknob.Samples.WavLayout
import Vuknob.Samples.RecordedWave
import Vuknob.Library.Following
