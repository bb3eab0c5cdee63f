import Engram.Main
import Engram.Scheduler
import Engram.Proofs.Alignment
import Engram.Proofs.Consistency
import Engram.Proofs.Continuity
import Engram.Proofs.Frequency
import Engram.Proofs.InPlace
import Engram.Proofs.Integration
import Engram.Proofs.LightCycles
import Engram.Proofs.Night
import Engram.Proofs.OncePerDate
import Engram.Proofs.Placement
import Engram.Proofs.Refusal
import Engram.Proofs.Revision
import Engram.Proofs.Sealing
import Engram.Proofs.Superseded
import Engram.Proofs.TrainingPhase
import Engram.Proofs.Retention
import Engram.Proofs.Relevance
import Engram.Proofs.FailedInput
import Engram.Proofs.Sequences
import Engram.Proofs.ContextSearch
import Engram.Proofs.Cache
import Engram.Proofs.Linking
import Engram.Proofs.Threshold
import Engram.Proofs.Echo
import Engram.Proofs.Buffer
import Engram.Proofs.Concepts
import Engram.Proofs.SortedTexts
