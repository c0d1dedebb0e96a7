import CoreMesh.Http.Header
import CoreMesh.Http.Url
import CoreMesh.Lib.Json

/-!
# Requests and the text of their bodies

A request as a server hands it on, up to what the middlewares of the gateway read of it. Reading a
body gives a text and ends there or with an error. `encoding/json` is a parameter: what a text is
read as, and a text that is written for a value.
-/

namespace CoreMesh.Http

/-- What reading a body gives, and whether the reading ends with an error. -/
structure Body (Text : Type) where
  text : Text
  failed : Bool
  deriving DecidableEq

structure Request (Text : Type) where
  method : String
  url : URL
  header : Header
  /-- None for a nil body or `http.NoBody`. -/
  body : Option (Body Text)
  contentLength : Int
  remoteAddr : String

structure JsonReader where
  Text : Type
  length : Text → Nat
  /-- `bytes.TrimSpace` leaves nothing. -/
  isBlank : Text → Bool
  unmarshal : Text → Option Json

/-- A text that is written for a value reads back as it. -/
structure JsonCodec extends JsonReader where
  marshal : Json → Text
  isBlank_unmarshal : ∀ text json, unmarshal text = some json → isBlank text = false
  wellFormed_unmarshal : ∀ text json, unmarshal text = some json → json.wellFormed = true
  unmarshal_marshal : ∀ json, json.wellFormed = true → unmarshal (marshal json) = some json

/-- `restoreRequestBody`. -/
def restoreRequestBody (reader : JsonReader) (r : Request reader.Text) (text : reader.Text) :
    Request reader.Text :=
  { r with body := some ⟨text, false⟩, contentLength := reader.length text }

/-! ### Instances -/

/-- A text given by the value it is read as. -/
def parsedText : JsonCodec where
  Text := Json
  length _ := 0
  isBlank _ := false
  unmarshal json := if json.wellFormed then some json else none
  marshal json := json
  isBlank_unmarshal _ _ _ := rfl
  wellFormed_unmarshal text json h := by
    split at h
    · rename_i hwell
      obtain rfl := Option.some.inj h
      exact hwell
    · cases h
  unmarshal_marshal json hwell := if_pos hwell

end CoreMesh.Http
