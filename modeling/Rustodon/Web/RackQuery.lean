import Rustodon.Web.RackParameters

/-! @src web/request_params.rs | name:Queries of Rack parameters | scheme:nested maps | family:web

    Parameters are parsed from the pieces of a query, and written as a query with the names put
    together again. What `url::form_urlencoded` makes of a single piece is a parameter, and so is the
    text of a number that is not an integer. -/

namespace Rustodon.Web
open Schemes.Checked Schemes.Utf8

/-- `url::form_urlencoded`: the first pair of a piece, and a text as it is put into a piece. -/
structure FormUrlencoded where
  parse : Text → Option (Text × Text)
  serialize : Text → Text

/-- What is documented of it: a pair that is written is read, and no text has a separator. -/
structure FormUrlencoded.Lawful (form : FormUrlencoded) : Prop where
  parse_nil : form.parse [] = none
  parse_pair : ∀ name value,
    form.parse (form.serialize name ++ '=' :: form.serialize value) = some (name, value)
  serialize_plain : ∀ text, '&' ∉ form.serialize text

section Parse

variable (form : FormUrlencoded)

/-- The body of the loop over the pieces of a query. -/
def RackParameters.parsePiece (parameters : RackParameters) (raw : Text) :
    Except RackParseError RackParameters :=
  match form.parse raw with
  | none => .ok parameters
  | some (name, value) => do
    match ← rackKey name with
    | none => return parameters
    | some (root, segments) =>
      parameters.insert root segments (if raw.contains '=' then .scalar value else .null)

/-- The loop, from the index of a piece on. -/
def RackParameters.parseFrom : ℕ → List Text → RackParameters → Except RackParseError RackParameters
  | _, [], parameters => .ok parameters
  | index, raw :: pieces, parameters => do
    failIf (index = rackParameterLimit) .limit
    parseFrom (index + 1) pieces (← parameters.parsePiece form raw)

def RackParameters.parse (encoded : Text) : Except RackParseError RackParameters := do
  failIf (byteLen encoded > rackBytesLimit) .limit
  RackParameters.parseFrom form 0 (encoded.splitOn '&') .empty

end Parse

/-! ### The query -/

section Query

variable (floatText : String → Text)

def rubyJsonNumber : Schemes.Json.Number → Text
  | .int n => (toString n).toList
  | .other text => floatText text

mutual

/-- `append`, which gives the pairs of a value with a name. -/
def append (name : Text) : RackValue → List (Text × Text)
  | .null | .upload _ => []
  | .scalar value => [(name, value)]
  | .number value => [(name, rubyJsonNumber floatText value)]
  | .boolean value => [(name, (toString value).toList)]
  | .array values => appendArray (name ++ ['[', ']']) values
  | .object values => appendObject name values

def appendArray (name : Text) : List RackValue → List (Text × Text)
  | [] => []
  | value :: values => append name value ++ appendArray name values

def appendObject (name : Text) : List (Text × RackValue) → List (Text × Text)
  | [] => []
  | (key, value) :: values =>
    append (name ++ '[' :: key ++ [']']) value ++ appendObject name values

end

variable (form : FormUrlencoded)

def RackParameters.pairs (parameters : RackParameters) : List (Text × Text) :=
  parameters.values.flatMap fun (name, value) => append floatText name value

/-- A pair as the serializer writes it. -/
def FormUrlencoded.piece (pair : Text × Text) : Text :=
  form.serialize pair.1 ++ '=' :: form.serialize pair.2

def RackParameters.toQuery (parameters : RackParameters) : Text :=
  ['&'].intercalate ((parameters.pairs floatText).map form.piece)

end Query

/-! ### Depth -/

mutual

def RackValue.jsonDepth : RackValue → ℕ
  | .array values => 1 + jsonDepthItems values
  | .object values => 1 + jsonDepthFields values
  | _ => 0

def jsonDepthItems : List RackValue → ℕ
  | [] => 0
  | value :: values => max value.jsonDepth (jsonDepthItems values)

def jsonDepthFields : List (Text × RackValue) → ℕ
  | [] => 0
  | (_, value) :: values => max value.jsonDepth (jsonDepthFields values)

end

end Rustodon.Web
