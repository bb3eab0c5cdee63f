import Engram.Json.Gap
import Engram.Tier

/-!
What can go wrong, by cause, and how each cause is reported.
-/

namespace Engram

/-- Why a configuration cannot be run with. -/
inductive ConfigFault where
  | embeddingDimension
  | contextItems
  | tierCapacity (tier : Tier)
  | batchSize
  | dayBound
  | nightWindow
  deriving DecidableEq, Repr

def ConfigFault.message : ConfigFault → String
  | .embeddingDimension => "embeddingDimension must be > 0"
  | .contextItems => "maxContextItems must be > 0"
  | .tierCapacity tier => "active memory size for tier " ++ tier.name ++ " must be > 0"
  | .batchSize => "training batch sizes must be > 0"
  | .dayBound => "buffered day bounds must be > 0"
  | .nightWindow => "night window hours out of range"

/-- A stored text that does not read back as what it should be. -/
inductive StoredText where
  | timestamp
  | archiveDate
  | runId
  deriving DecidableEq, Repr

def StoredText.message : StoredText → String
  | .timestamp => "Invalid timestamp"
  | .archiveDate => "Invalid archive date"
  | .runId => "Invalid run id"

/-- A rule of the durable tables that a write would break. -/
inductive TableFault where
  | repeatedEntry
  | repeatedRun
  | appendOnly
  /-- A sum that does not fit in a signed 64-bit word. -/
  | overflow
  deriving DecidableEq, Repr

def TableFault.message : TableFault → String
  | .repeatedEntry => "UNIQUE constraint failed: archive_entries.id"
  | .repeatedRun => "UNIQUE constraint failed: nightly_runs.id"
  | .appendOnly => "archive entries are append-only"
  | .overflow => "integer overflow"

inductive Error where
  | invalidTier (text : String)
  | dimensionMismatch (expected actual : Nat)
  | embeddingUnavailable (reason : String)
  | generationUnavailable (reason : String)
  | archiveWrite (reason : String)
  | table (fault : TableFault)
  /-- A JSON text that does not read as what it should be, for its first gap if it has one. -/
  | malformed (gap : Option Json.Gap)
  | config (fault : ConfigFault)
  /-- A backend that does not carry out an operation at present. -/
  | refused (operation : String)
  | stored (text : StoredText)
  /-- A result that does not exist: a length of time that cannot be counted, or a word to be placed
  in one of no buckets. -/
  | undefined
  deriving DecidableEq, Repr

namespace Error

/-- The short kind of an error, for programs. -/
def kind : Error → String
  | .invalidTier _ => "invalid_tier"
  | .dimensionMismatch _ _ => "dimension_mismatch"
  | .embeddingUnavailable _ => "embedding_unavailable"
  | .generationUnavailable _ => "generation_unavailable"
  | .archiveWrite _ => "archive_write_failure"
  | .table _ => "database"
  | .malformed _ => "serialization"
  | .config _ => "init"
  | .refused _ => "init"
  | .stored _ => "init"
  | .undefined => "undefined"

/-- The text of an error, for people. -/
def message : Error → String
  | .invalidTier text => "Invalid memory tier: " ++ text
  | .dimensionMismatch expected actual =>
    s!"Embedding dimension mismatch: expected {expected}, got {actual}"
  | .embeddingUnavailable reason => "Embedding unavailable: " ++ reason
  | .generationUnavailable reason => "Generation unavailable: " ++ reason
  | .archiveWrite reason => "Archive write failed: " ++ reason
  | .table fault => "Database error: " ++ fault.message
  | .malformed none => "Serialization error"
  | .malformed (some gap) => "Serialization error: " ++ gap.message
  | .config fault => "Initialization error: " ++ fault.message
  | .refused operation => "Initialization error: " ++ operation ++ " refused"
  | .stored text => "Initialization error: " ++ text.message
  | .undefined => "undefined result"

end Error

/-- Read a tier tag, or say which text was none. -/
def Tier.parse (s : String) : Except Error Tier :=
  match Tier.parse? s with
  | some t => .ok t
  | none => .error (.invalidTier s)

end Engram
