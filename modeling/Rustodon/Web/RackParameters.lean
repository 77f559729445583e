import Mathlib.Data.Char
import Mathlib.Data.List.Lex
import Rustodon.Schemes.Checked
import Rustodon.Schemes.Json
import Rustodon.Schemes.Utf8

/-! @src web/request_params.rs | name:Rack parameters | scheme:nested maps | family:web

    Parameters with names such as `a[b][]`, which are put into nested objects and arrays, and written
    as a query again. A map is the list of its entries in the order of their keys. -/

namespace Rustodon.Web
open Schemes.Checked Schemes.Utf8

inductive RequestParameterError where
  | badRequest | internalServer
  deriving DecidableEq, Repr

inductive RackParseError where
  | conflict | limit
  deriving DecidableEq, Repr

/-- `RequestParameterError::from`. -/
def RackParseError.toRequest : RackParseError → RequestParameterError
  | .conflict => .badRequest
  | .limit => .internalServer

def rackBytesLimit : ℕ := 4 * 1024 * 1024

def rackParameterLimit : ℕ := 4096

def rackDepthLimit : ℕ := 32

structure UploadedFile where
  fileName : Text
  contentType : Text
  bytes : List UInt8
  deriving DecidableEq, Repr

inductive RackValue where
  | null
  | scalar (value : Text)
  | number (value : Schemes.Json.Number)
  | boolean (value : Bool)
  | array (values : List RackValue)
  | object (values : List (Text × RackValue))
  | upload (file : UploadedFile)

/-- A map of values. -/
abbrev RackMap := List (Text × RackValue)

def RackMap.get (values : RackMap) (key : Text) : Option RackValue := values.lookup key

/-- `BTreeMap::insert`: in place of the entry of the key, or where the key belongs. -/
def RackMap.insert (key : Text) (value : RackValue) : RackMap → RackMap
  | [] => [(key, value)]
  | (k, v) :: rest =>
    if k = key then (key, value) :: rest
    else if key < k then (key, value) :: (k, v) :: rest
    else (k, v) :: RackMap.insert key value rest

structure RackParameters where
  values : RackMap

/-- `RackParameters::default`. -/
def RackParameters.empty : RackParameters := ⟨[]⟩

inductive RackKeySegment where
  | field (name : Text)
  | trailingPush (name : Text)
  | push
  deriving DecidableEq, Repr

/-! ### Names -/

/-- A segment between brackets. -/
def bracketSegment (segments : List RackKeySegment) (name remaining : Text) : RackKeySegment :=
  if name.isEmpty then
    if !remaining.isEmpty && segments.getLast? = some .push then .field ['[', ']'] else .push
  else .field name

/-- The loop over brackets, with the number of segments that may still be pushed. -/
def rackSegments : ℕ → List RackKeySegment → Text → Except RackParseError (List RackKeySegment × Text)
  | 0, _, _ => .error .limit
  | left + 1, segments, suffix =>
    match suffix with
    | '[' :: rest =>
      let (name, remaining) := (splitOnce [']'] rest).getD (rest, [])
      rackSegments left (segments ++ [bracketSegment segments name remaining]) remaining
    | _ => .ok (segments, suffix)

/-- What is behind the last bracket. -/
def trailingSegment (segments : List RackKeySegment) (suffix : Text) : List RackKeySegment :=
  if suffix.isEmpty then segments
  else
    match segments.getLast? with
    | some (.field _) => segments ++ [.field suffix]
    | some .push => segments.dropLast ++ [.trailingPush suffix]
    | _ => segments

/-- The root of a name and what follows it. Where the first character is longer than a byte, there
    is no `name.get(1..)`, and all of the name is the root. -/
def rackRoot : Text → Text × Text
  | [] => ([], [])
  | c :: rest =>
    if c.utf8Size = 1 then
      match splitOnce ['['] rest with
      | none => (c :: rest, [])
      | some (root, suffix) => (c :: root, '[' :: suffix)
    else (c :: rest, [])

def rackKey (name : Text) : Except RackParseError (Option (Text × List RackKeySegment)) :=
  let (root, suffix) := rackRoot name
  if root.isEmpty then .ok none
  else do
    let (segments, suffix) ← rackSegments rackDepthLimit [] suffix
    let segments := trailingSegment segments suffix
    failIf (decide (segments.length ≥ rackDepthLimit)) .limit
    return some (root, segments)

/-! ### Values -/

inductive RackPathState where
  | missing | existing | conflict
  deriving DecidableEq, Repr

def rackPathState : List RackKeySegment → RackMap → RackPathState
  | [], _ => .existing
  | .field name :: rest, values =>
    match values.get name with
    | none => .missing
    | some value =>
      match rest with
      | [] => .existing
      | next :: _ =>
        match value, next with
        | .object values, .field _ => rackPathState rest values
        | .array _, .push => .missing
        | .array _, .trailingPush _ => .missing
        | _, _ => .conflict
  | _ :: _, _ => .conflict

/-- What a segment is inserted into. -/
def expectedFor : RackKeySegment → RackValue
  | .field _ => .object []
  | .push | .trailingPush _ => .array []

/-- `insert_rack_value`, which gives what becomes of the target. -/
def insertRackValue (value : RackValue) :
    List RackKeySegment → RackValue → Except RackParseError RackValue
  | [], _ => .ok value
  | .field name :: rest, .object values =>
    match rest with
    | [] => .ok (.object (RackMap.insert name value values))
    | next :: _ => do
      let entry ← insertRackValue value rest ((RackMap.get values name).getD (expectedFor next))
      return .object (RackMap.insert name entry values)
  | .trailingPush name :: _, .array values =>
    -- The path of the inner calls is a single field, so that they put an entry into an object.
    match values.getLast? with
    | some (.object last) =>
      if rackPathState [.field name] last = .existing then
        .ok (.array (values ++ [.object (RackMap.insert name value [])]))
      else .ok (.array (values.dropLast ++ [.object (RackMap.insert name value last)]))
    | _ => .ok (.array (values ++ [.object (RackMap.insert name value [])]))
  | .push :: rest, .array values =>
    match rest with
    | [] => .ok (.array (values ++ [value]))
    | next :: _ =>
      match next, values.getLast? with
      | .field _, some (.object last) =>
        if rackPathState rest last = .existing then do
          let nested ← insertRackValue value rest (expectedFor next)
          return .array (values ++ [nested])
        else do
          let last ← insertRackValue value rest (.object last)
          return .array (values.dropLast ++ [last])
      | .push, some (.object _) =>
        if rest = [.push] then .ok (.array values)
        else do
          let nested ← insertRackValue value rest (expectedFor next)
          return .array (values ++ [nested])
      | .push, some (.array last) => do
        let last ← insertRackValue value rest (.array last)
        return .array (values.dropLast ++ [last])
      | _, _ => do
        let nested ← insertRackValue value rest (expectedFor next)
        return .array (values ++ [nested])
  | _, _ => .error .conflict

def RackParameters.insert (parameters : RackParameters) (root : Text)
    (segments : List RackKeySegment) (value : RackValue) : Except RackParseError RackParameters :=
  match segments with
  | [] => .ok ⟨parameters.values.insert root value⟩
  | first :: _ => do
    let entry ← insertRackValue value segments
      ((parameters.values.get root).getD (expectedFor first))
    return ⟨parameters.values.insert root entry⟩

def RackParameters.get (parameters : RackParameters) (name : Text) : Option RackValue :=
  parameters.values.get name

/-- `self.0.extend(query.0)`. -/
def RackParameters.merge (parameters query : RackParameters) : RackParameters :=
  ⟨query.values.foldl (fun values (key, value) => values.insert key value) parameters.values⟩

end Rustodon.Web
