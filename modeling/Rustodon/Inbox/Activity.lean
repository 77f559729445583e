import Rustodon.Schemes.Checked
import Rustodon.Schemes.Json
import Rustodon.Schemes.Utf8

/-! @src mastodon/activitypub_inbox.rs | name:Inbox parsing | scheme:json | family:activitypub

    `parse_activity` with all its parsers. Parsing the body and parsing URLs are the work of other
    libraries: both are parameters. -/

namespace Rustodon.Inbox
open Schemes.Checked Schemes.Json Schemes.Utf8

/-- What the parsers read of a parsed URL. -/
structure Url where
  scheme : String
  hostStr : Option String

/-- `serde_json::from_str` and `Url::parse`. -/
structure Env where
  fromStr : String → Option Value
  parseUrl : String → Option Url

inductive InboxParseError where
  | arguments
  | json
  | activity
  deriving DecidableEq, Repr

inductive InboxActivity where
  | createVote (activityUri actorUri voteUri questionUri option : String) (object activity : Value)
  | createNote (activityUri actorUri : String) (object activity : Value)
  | createNoteReference (activityUri actorUri objectUri : String) (toUris ccUris : List String)
      (activity : Value)
  | updateNote (actorUri : String) (object activity : Value)
  | deleteNote (actorUri objectUri : String) (atomUri : Option String) (activity : Value)
  | deleteQuoteAuthorization (actorUri authorizationUri : String) (activity : Value)
  | quoteRequest (requestUri actorUri objectUri : String) (instrument : Value)
  | quoteDecision (accepted : Bool) (actorUri requestUri : String)
      (requestActorUri objectUri instrumentUri resultUri : Option String)
  | like (activityUri actorUri objectUri : String)
  | announce (activityUri actorUri objectUri : String) (embeddedNote : Option Value)
      (toUris ccUris : List String) (publishedAt : Option String)
  | undoLike (actorUri activityUri objectUri : String)
  | undoAnnounce (actorUri activityUri objectUri : String)
  | follow (activityUri actorUri objectUri : String)
  | flag (activityUri : Option String) (actorUri : String) (objectUris : List String)
      (comment : String)
  | block (activityUri actorUri objectUri : String)
  | updateActor (actorUri : String) (object : Value)
  | deleteActor (actorUri objectUri : String)
  | accept (actorUri followUri : String) (targetUri nestedActorUri : Option String)
  | reject (actorUri followUri : String) (targetUri nestedActorUri : Option String)
  | undoFollow (actorUri followUri : String) (targetUri nestedActorUri : Option String)
  | undoReference (actorUri objectUri : String)
  | undoBlock (actorUri blockUri : String) (targetUri nestedActorUri : Option String)
  | unsupported
  deriving Repr

abbrev Parsed := Except InboxParseError

/-- Rejects the activity unless the condition holds. -/
def ensure (condition : Bool) : Parsed Unit := if condition then .ok () else .error .activity

/-- `equals_or_includes`. -/
def equalsOrIncludes (value : Option Value) (expected : String) : Bool :=
  match value with
  | some (.string value) => value == expected
  | some (.array values) => values.any fun value => value.asStr == some expected
  | _ => false

/-! ### URIs -/

mutual

/-- `value_or_id` on a value that is present. -/
def valueOrId : Value → Option String
  | .string value =>
    let trimmed := trim value.toList
    if trimmed.isEmpty then none else some (String.ofList trimmed)
  | .object fields => (((fieldIds fields).lookup "id").or ((fieldIds fields).lookup "href")).join
  | _ => none

/-- The URIs of all entries of an object, of which `value_or_id` looks at one. -/
def fieldIds : Fields → List (String × Option String)
  | [] => []
  | (key, value) :: rest => (key, valueOrId value) :: fieldIds rest

end

theorem lookup_fieldIds (key : String) : ∀ fields : Fields,
    (fieldIds fields).lookup key = (get fields key).map valueOrId
  | [] => rfl
  | (k, v) :: rest => by
    have ih := lookup_fieldIds key rest
    simp only [Schemes.Json.get] at ih ⊢
    rw [fieldIds, List.lookup_cons, List.lookup_cons, ih]
    cases key == k <;> rfl

/-- `value_or_id` on an object: the entry `id`, or else `href`. -/
theorem valueOrId_object (fields : Fields) :
    valueOrId (.object fields) = ((get fields "id").or (get fields "href")).bind valueOrId := by
  rw [valueOrId, lookup_fieldIds, lookup_fieldIds]
  cases get fields "id" <;> cases get fields "href" <;> rfl

variable (env : Env)

def requiredUri (value : Option Value) : Parsed String := do
  let value ← okOr (value.bind valueOrId) .activity
  let url ← okOr (env.parseUrl value) .activity
  ensure ((url.scheme == "http" || url.scheme == "https") && url.hostStr.isSome)
  pure value

def firstUri (value : Option Value) : Parsed String :=
  match value with
  | some (.array values) => requiredUri env values.head?
  | _ => requiredUri env value

def optionalUri (value : Option Value) : Parsed (Option String) :=
  match value with
  | none => pure none
  | some .null => pure none
  | some value => some <$> requiredUri env (some value)

def actorImageUri (value : Option Value) : Parsed (Option String) :=
  match value with
  | some (.object fields) =>
    if (get fields "url").isSome then some <$> requiredUri env (get fields "url")
    else optionalUri env value
  | _ => optionalUri env value

/-- Whether a text starts with `tag:`, in any case, after white space. -/
def isTagUri (uri : Text) : Bool :=
  (truncate (trimStart uri) 4).any fun scheme => scheme.map Char.toLower == "tag:".toList

def optionalAtomUri (value : Option Value) : Parsed (Option String) :=
  if (value.bind Value.asStr).any fun uri => isTagUri uri.toList then pure none
  else optionalUri env value

def optionalConversationUri (value : Option Value) : Parsed (Option String) :=
  match value.filter fun value => !value.isNull with
  | none => pure none
  | some value => do
    let uri ← okOr (valueOrId value) .activity
    if "tag:".toList.isPrefixOf uri.toList then do
      ensure (!(trim (uri.toList.drop 4)).isEmpty)
      pure (some uri)
    else some <$> requiredUri env (some value)

def audienceUri (value : Option Value) : Parsed String :=
  match value.bind Value.asStr with
  | some uri =>
    if uri == "as:Public" || uri == "Public" then pure uri else requiredUri env value
  | none => requiredUri env value

def boundedText (fields : Fields) (field : String) (maxChars : ℕ) : Parsed (Option String) :=
  match get fields field with
  | none => pure none
  | some .null => pure none
  | some (.string value) =>
    if value.toList.length ≤ maxChars then pure (some value) else .error .activity
  | some _ => .error .activity

/-! ### Notes and actors -/

/-- The text of a note before its length is checked. -/
def noteText (content contentMap : Option Value) : Option String :=
  match content with
  | some (.string text) => some text
  | none => some (firstText contentMap)
  | some .null => some (firstText contentMap)
  | some _ => none
where
  firstText (contentMap : Option Value) : String :=
    ((contentMap.bind Value.asObject).bind fun map =>
      map.findSome? fun entry => entry.2.asStr).getD ""

def remoteNoteContent (object : Fields) : Option String :=
  (noteText (get object "content") (get object "contentMap")).filter fun text =>
    text.toList.length ≤ 20 * 1024

/-- One field of a note that holds addressees. -/
def validateAudience (value : Option Value) : Parsed Unit :=
  match value with
  | none => pure ()
  | some .null => pure ()
  | some (.array values) => values.forM fun value => do let _ ← audienceUri env (some value)
  | some (.string uri) => do let _ ← audienceUri env (some (.string uri))
  | some (.object fields) => do let _ ← audienceUri env (some (.object fields))
  | some _ => .error .activity

def isTagList (value : Value) : Bool :=
  match value with
  | .array _ | .object _ | .string _ | .null => true
  | _ => false

def validateNoteObject (actorUri : String) (object : Fields) : Parsed Unit := do
  let _ ← requiredUri env (get object "id")
  let attributedTo ← firstUri env (get object "attributedTo")
  ensure (attributedTo == actorUri)
  let _ ← okOr (remoteNoteContent object) .activity
  ["url", "inReplyTo"].forM fun field => do let _ ← optionalUri env (get object field)
  let _ ← optionalConversationUri env (get object "conversation")
  ["published", "updated"].forM fun field => ensure ((get object field).all Value.isString)
  ensure ((get object "summary").all fun value =>
    value.isNull || value.asStr.any fun summary => summary.toList.length ≤ 20 * 1024)
  ensure ((get object "sensitive").all fun value => value.isNull || value.asBool.isSome)
  ["tag", "attachment"].forM fun field => ensure ((get object field).all isTagList)
  ["to", "cc"].forM fun field => validateAudience env (get object field)
  [("to", 100), ("cc", 100), ("tag", 1000), ("attachment", 16)].forM fun (field, limit) =>
    ensure (((get object field).bind Value.asArray).all fun values => values.length ≤ limit)

def validateEndpoints (value : Option Value) : Parsed Unit :=
  match value with
  | none => pure ()
  | some (.object endpoints) => do let _ ← optionalUri env (get endpoints "sharedInbox")
  | some _ => .error .activity

def parseActorUpdateParts (actorUri : String) (object : Fields) : Parsed InboxActivity := do
  let objectUri ← requiredUri env (get object "id")
  ensure (objectUri == actorUri)
  let _ ← boundedText object "preferredUsername" 2048
  let _ ← boundedText object "name" 2048
  let _ ← boundedText object "summary" (20 * 1024)
  ["url", "inbox", "outbox", "followers", "following"].forM fun field => do
    let _ ← optionalUri env (get object field)
  validateEndpoints env (get object "endpoints")
  ["icon", "image"].forM fun field => do let _ ← actorImageUri env (get object field)
  ensure ((get object "suspended").all fun value => value.isNull || value.asBool.isSome)
  pure (.updateActor actorUri (.object object))

/-! ### The parsers of the activities -/

/-- `parse_interaction_audience`. -/
def parseInteractionAudience (value : Option Value) : Parsed (List String) :=
  match value.filter fun value => !value.isNull with
  | none => pure []
  | some value => do
    let values := value.asArray.getD [value]
    ensure (values.length ≤ 100)
    values.mapM fun value => audienceUri env (some value)

def parseNoteCreate (activity : Fields) : Parsed InboxActivity := do
  let activityUri ← requiredUri env (get activity "id")
  let actorUri ← requiredUri env (get activity "actor")
  match get activity "object" with
  | none => .error .activity
  | some (.string uri) => do
    let objectUri ← requiredUri env (some (.string uri))
    let toUris ← parseInteractionAudience env (get activity "to")
    let ccUris ← parseInteractionAudience env (get activity "cc")
    pure (.createNoteReference activityUri actorUri objectUri toUris ccUris (.object activity))
  | some (.object object) =>
    if equalsOrIncludes (get object "type") "Note" && ((get object "name").bind Value.asStr).isSome
        && (get object "inReplyTo").isSome then do
      let attributedTo ← requiredUri env (get object "attributedTo")
      ensure (attributedTo == actorUri)
      let option ← okOr (((get object "name").bind Value.asStr).filter fun value => value != "")
        .activity
      let voteUri ← requiredUri env (get object "id")
      let questionUri ← requiredUri env (get object "inReplyTo")
      pure (.createVote activityUri actorUri voteUri questionUri option (.object object)
        (.object activity))
    else if !equalsOrIncludes (get object "type") "Note"
        && !equalsOrIncludes (get object "type") "Question" then
      pure .unsupported
    else do
      validateNoteObject env actorUri object
      pure (.createNote activityUri actorUri (.object object) (.object activity))
  | some _ => .error .activity

def actorKinds : List String := ["Application", "Group", "Organization", "Person", "Service"]

def parseUpdate (activity : Fields) : Parsed InboxActivity := do
  let actorUri ← requiredUri env (get activity "actor")
  match get activity "object" with
  | some (.object object) =>
    if equalsOrIncludes (get object "type") "Note"
        || equalsOrIncludes (get object "type") "Question" then do
      validateNoteObject env actorUri object
      pure (.updateNote actorUri (.object object) (.object activity))
    else if actorKinds.any (equalsOrIncludes (get object "type")) then
      parseActorUpdateParts env actorUri object
    else if (get object "type").isSome then pure .unsupported
    else .error .activity
  | _ => pure .unsupported

/-- The URI of a deleted object, and its OStatus alias. -/
def deletedUris (object : Value) : Parsed (String × Option String) :=
  match object with
  | .string _ => do
    let objectUri ← requiredUri env (some object)
    pure (objectUri, none)
  | .object fields => do
    let objectUri ← requiredUri env (get fields "id")
    let atomUri ← optionalAtomUri env (get fields "atomUri")
    pure (objectUri, atomUri)
  | _ => .error .activity

def parseDelete (activity : Fields) : Parsed InboxActivity := do
  let actorUri ← requiredUri env (get activity "actor")
  let object ← okOr (get activity "object") .activity
  let (objectUri, atomUri) ← deletedUris env object
  if objectUri = actorUri then pure (.deleteActor actorUri objectUri)
  else if object.asObject.any fun fields =>
      equalsOrIncludes (get fields "type") "QuoteAuthorization" then
    pure (.deleteQuoteAuthorization actorUri objectUri (.object activity))
  else pure (.deleteNote actorUri objectUri atomUri (.object activity))

def parseQuoteRequest (activity : Fields) : Parsed InboxActivity := do
  let requestUri ← requiredUri env (get activity "id")
  let actorUri ← requiredUri env (get activity "actor")
  let objectUri ← requiredUri env (get activity "object")
  let instrument ← okOr ((get activity "instrument").filter fun instrument =>
    instrument.isString || instrument.isObject) .activity
  let _ ← requiredUri env (some instrument)
  pure (.quoteRequest requestUri actorUri objectUri instrument)

/-- Whether a result is `Ok`. -/
def isOk {α : Type} : Parsed α → Bool
  | .ok _ => true
  | .error _ => false

def embeddedNote (actorUri : String) (object : Option Value) : Option Value :=
  match object with
  | some (.object object) =>
    if ["Note", "Question"].any (equalsOrIncludes (get object "type"))
        && isOk (validateNoteObject env actorUri object) then some (.object object)
    else none
  | _ => none

def parseInteraction (activity : Fields) (like : Bool) : Parsed InboxActivity := do
  let activityUri ← requiredUri env (get activity "id")
  let actorUri ← requiredUri env (get activity "actor")
  let objectUri ← requiredUri env (get activity "object")
  if like then pure (.like activityUri actorUri objectUri)
  else do
    let toUris ← parseInteractionAudience env (get activity "to")
    let ccUris ← parseInteractionAudience env (get activity "cc")
    let publishedAt ← (get activity "published").mapM fun value => okOr value.asStr .activity
    pure (.announce activityUri actorUri objectUri
      (embeddedNote env actorUri (get activity "object")) toUris ccUris publishedAt)

/-- The comment of a flag, cut after 5000 characters. -/
def flagComment (content : Option Value) : Parsed String :=
  match content with
  | none => pure ""
  | some .null => pure ""
  | some (.string value) => pure (String.ofList (value.toList.take 5000))
  | some _ => .error .activity

def parseFlag (activity : Fields) : Parsed InboxActivity := do
  let actorUri ← requiredUri env (get activity "actor")
  let activityUri := ((get activity "id").filter fun value => !value.isNull).bind valueOrId
  let object ← okOr (get activity "object") .activity
  let values := object.asArray.getD [object]
  ensure (values.length ≤ 100)
  let objectUris := values.filterMap valueOrId
  let comment ← flagComment (get activity "content")
  pure (.flag activityUri actorUri objectUris comment)

/-- `required_uri` on a field that may be absent. -/
def presentUri (fields : Fields) (field : String) : Parsed (Option String) :=
  (get fields field).mapM fun value => requiredUri env (some value)

/-- What an embedded follow or block is known by, when it is decided on or undone. -/
def embeddedRelation (object : Fields)
    (make : String → Option String → Option String → InboxActivity) : Parsed InboxActivity := do
  let uri ← requiredUri env (get object "id")
  let targetUri ← presentUri env object "object"
  let nestedActorUri ← presentUri env object "actor"
  pure (make uri targetUri nestedActorUri)

def parseFollowDecision (activity : Fields) (accepted : Bool) : Parsed InboxActivity := do
  let actorUri ← requiredUri env (get activity "actor")
  let object ← okOr (get activity "object") .activity
  if object.asObject.any fun request => equalsOrIncludes (get request "type") "QuoteRequest" then do
    let request := object.asObject.getD []
    let resultUri ← (get activity "result").mapM fun _ => firstUri env (get activity "result")
    ensure (!(accepted && resultUri.isNone))
    let requestUri ← requiredUri env (get request "id")
    let requestActorUri ← presentUri env request "actor"
    let objectUri ← presentUri env request "object"
    let instrumentUri ← presentUri env request "instrument"
    pure (.quoteDecision accepted actorUri requestUri requestActorUri objectUri instrumentUri
      resultUri)
  else if object.isString && (get activity "result").isSome then do
    ensure accepted
    let requestUri ← requiredUri env (some object)
    let resultUri ← firstUri env (get activity "result")
    pure (.quoteDecision true actorUri requestUri none none none (some resultUri))
  else
    let decision := fun followUri targetUri nestedActorUri =>
      if accepted then InboxActivity.accept actorUri followUri targetUri nestedActorUri
      else InboxActivity.reject actorUri followUri targetUri nestedActorUri
    match object with
    | .string _ => do
      let followUri ← requiredUri env (some object)
      pure (decision followUri none none)
    | .object fields =>
      match (get fields "type").bind Value.asStr with
      | none => embeddedRelation env fields decision
      | some kind =>
        if kind = "Follow" then embeddedRelation env fields decision else pure .unsupported
    | _ => .error .activity

def undoInteraction (actorUri : String) (object : Fields)
    (undo : String → String → InboxActivity) : Parsed InboxActivity := do
  let activityUri ← requiredUri env (get object "id")
  let objectUri ← requiredUri env (get object "object")
  let nestedActorUri ← presentUri env object "actor"
  ensure (nestedActorUri.all (· == actorUri))
  pure (undo activityUri objectUri)

def parseUndo (activity : Fields) : Parsed InboxActivity := do
  let actorUri ← requiredUri env (get activity "actor")
  let object ← okOr (get activity "object") .activity
  match object with
  | .string _ => do
    let objectUri ← requiredUri env (some object)
    pure (.undoReference actorUri objectUri)
  | .object fields =>
    match (get fields "type").bind Value.asStr with
    | none => embeddedRelation env fields (.undoFollow actorUri)
    | some kind =>
      if kind = "Follow" then embeddedRelation env fields (.undoFollow actorUri)
      else if kind = "Block" then embeddedRelation env fields (.undoBlock actorUri)
      else if kind = "Like" then undoInteraction env actorUri fields (.undoLike actorUri)
      else if kind = "Announce" then undoInteraction env actorUri fields (.undoAnnounce actorUri)
      else pure .unsupported
  | _ => .error .activity

/-- An activity whose three URIs are all there is to it. -/
def parsePlain (activity : Fields) (make : String → String → String → InboxActivity) :
    Parsed InboxActivity := do
  let activityUri ← requiredUri env (get activity "id")
  let actorUri ← requiredUri env (get activity "actor")
  let objectUri ← requiredUri env (get activity "object")
  pure (make activityUri actorUri objectUri)

/-- The kinds of activity, in the order in which they are tried. -/
inductive Kind where
  | create | update | delete | quoteRequest | like | announce | follow | flag | block | accept
  | reject | undo
  deriving DecidableEq, Repr

def Kind.name : Kind → String
  | .create => "Create"
  | .update => "Update"
  | .delete => "Delete"
  | .quoteRequest => "QuoteRequest"
  | .like => "Like"
  | .announce => "Announce"
  | .follow => "Follow"
  | .flag => "Flag"
  | .block => "Block"
  | .accept => "Accept"
  | .reject => "Reject"
  | .undo => "Undo"

def kinds : List Kind :=
  [.create, .update, .delete, .quoteRequest, .like, .announce, .follow, .flag, .block, .accept,
    .reject, .undo]

/-- The kind an activity is taken for. -/
def kindOf (activity : Fields) : Option Kind :=
  kinds.find? fun kind => equalsOrIncludes (get activity "type") kind.name

def parseKind (activity : Fields) : Kind → Parsed InboxActivity
  | .create => parseNoteCreate env activity
  | .update => parseUpdate env activity
  | .delete => parseDelete env activity
  | .quoteRequest => parseQuoteRequest env activity
  | .like => parseInteraction env activity true
  | .announce => parseInteraction env activity false
  | .follow => parsePlain env activity .follow
  | .flag => parseFlag env activity
  | .block => parsePlain env activity .block
  | .accept => parseFollowDecision env activity true
  | .reject => parseFollowDecision env activity false
  | .undo => parseUndo env activity

/-- `parse_activity` on the entries of a JSON object. -/
def parseObject (activity : Fields) : Parsed InboxActivity :=
  match kindOf activity with
  | some kind => parseKind env activity kind
  | none => if (get activity "type").isSome then pure .unsupported else .error .activity

/-- `parse_activity`. -/
def parseActivity (body : String) : Parsed InboxActivity :=
  match env.fromStr body with
  | none => .error .json
  | some (.object activity) => parseObject env activity
  | some _ => .error .activity

end Rustodon.Inbox
