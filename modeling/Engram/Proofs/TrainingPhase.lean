import Engram.Proofs.TrainingRun
import Engram.Proofs.Store
import Mathlib.Data.List.Nodup

/-! The training phase of a night: what the queue is cut into, and that the calls, the reports, the
status and what is noted as trained agree on which batches were sent and accepted. -/
namespace Engram

namespace Nightly

open Engram.Cycle

variable {a : Answers Mind} {i : Nat}

section Status

variable {n cut : Nat} {status : PhaseStatus}

end Status

section Calls

variable {run : String} {n cut : Nat} {batches : List (List Lesson)}

end Calls

section Queue

variable {b : KnowledgeBase} {e : KnowledgeEntry}

variable {batches : List (List Lesson)} (ordered : b.Ordered)
  (hqueue : batches.flatten = b.pending.map lessonOf) (he : e ∈ b.entries)
include ordered hqueue he

end Queue

section Whole

variable {run : String} {cut : Nat} {batches : List (List Lesson)} {s : Mind}
  {outcome : (Mind × PhaseStatus × List BatchReport) × List Question}

end Whole

end Nightly

namespace Mind

open Nightly Engram.Cycle

end Mind

end Engram
