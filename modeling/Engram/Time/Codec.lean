import Engram.Json.Codec
import Engram.Time.Reader

/-!
Dates and instants in JSON are strings.
-/

namespace Engram.Time

instance : Json.Codec Date where
  encode d := .str d.text
  decode
    | _, .str text => text.bind Date.parse?
    | _, _ => none

instance : Json.Codec Instant where
  encode t := .str t.text
  decode
    | _, .str text => text.bind Instant.parse?
    | _, _ => none

end Engram.Time
