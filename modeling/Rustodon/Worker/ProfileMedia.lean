import Rustodon.Media.Paperclip
import Rustodon.Schemes.Runs

/-! @src worker/profile_media.rs, mastodon/profile_media.rs | name:Profile images | scheme:labelled runs |
    family:worker

    The image of one slot of a remote account: the columns of its row, the files of the image, and the
    jobs that fetch and clean up. Who holds the lock of the row goes in small steps and may crash at
    each of them. -/

namespace Rustodon.Worker
open Media Schemes.Utf8

inductive ProfileImageSlot where
  | avatar
  | header
  deriving DecidableEq, Repr

def ProfileImageSlot.attachment : ProfileImageSlot → PaperclipAttachment
  | avatar => .accountAvatar
  | header => .accountHeader

structure ProfileImageJob where
  accountId : Int64
  actorUri : Text
  domain : Text
  slot : ProfileImageSlot
  remoteUrl : Text
  version : ℤ
  deriving DecidableEq

/-- The columns of one slot. `updatedAt` counts microseconds. -/
structure ProfileImageState where
  domain : Option Text
  uri : Text
  suspendedAt : Option ℤ
  remoteUrl : Option Text
  fileName : Option Text
  contentType : Option Text
  fileSize : Option ℤ
  storageSchemaVersion : Option ℤ
  updatedAt : Option ℤ
  deriving DecidableEq

/-! ### Versions -/

/-- A `numeric` is cast to the nearest `bigint`, and a half away from zero. -/
def roundSeconds (micros : ℤ) : ℤ :=
  if 0 ≤ micros then (micros + 500000) / 1000000 else -((-micros + 500000) / 1000000)

/-- `date_trunc('second', …)`. -/
def truncSecond (micros : ℤ) : ℤ := micros / 1000000 * 1000000

/-- `greatest(date_trunc('second', clock_timestamp()), updated_at + interval '1 second')`. -/
def nextUpdatedAt (updatedAt : Option ℤ) (now : ℤ) : ℤ :=
  match updatedAt with
  | none => truncSecond now
  | some updated => max (truncSecond now) (updated + 1000000)

namespace ProfileImageState

variable (state : ProfileImageState)

/-- `extract(epoch FROM updated_at)::bigint`. -/
def version : Option ℤ := state.updatedAt.map roundSeconds

def «matches» (job : ProfileImageJob) : Bool :=
  state.domain == some job.domain && state.uri == job.actorUri && state.suspendedAt.isNone &&
    state.remoteUrl == some job.remoteUrl && state.version == some job.version

def metadata (id : Int64) (slot : ProfileImageSlot) : Option PaperclipMetadata :=
  state.fileName.map fun fileName =>
    { attachment := slot.attachment
      id
      remote := state.domain.isSome
      storageSchemaVersion := state.storageSchemaVersion
      fileName
      contentType := state.contentType
      variant := none }

end ProfileImageState

def imagePaths (metadata : PaperclipMetadata) : List Text :=
  [original, static].filterMap metadata.relativePath

/-- The paths that a row names. -/
def rowPaths (id : Int64) (slot : ProfileImageSlot) (row : ProfileImageState) : List Text :=
  ((row.metadata id slot).map imagePaths).getD []

/-! ### Persisting -/

structure Persisted where
  row : ProfileImageState
  cleanups : List (List Text)
  fetches : List ProfileImageJob

def nonempty (url : Option Text) : Option Text := url.filter fun url => !url.isEmpty

/-- A header without a URL has an empty one. -/
def storedUrl (slot : ProfileImageSlot) (url : Option Text) : Option Text :=
  if slot = .header then some (url.getD []) else url

/-- The columns after the `UPDATE`. -/
def bumped (slot : ProfileImageSlot) (state : ProfileImageState) (url : Option Text) (clear : Bool)
    (now : ℤ) : ProfileImageState :=
  { state with
    remoteUrl := storedUrl slot url
    fileName := if clear then none else state.fileName
    contentType := if clear then none else state.contentType
    fileSize := if clear then none else state.fileSize
    storageSchemaVersion := if clear then none else state.storageSchemaVersion
    updatedAt := some (nextUpdatedAt state.updatedAt now) }

def isComplete (state : ProfileImageState) : Bool :=
  state.fileName.isSome && state.contentType.isSome && state.fileSize.any fun size => decide (0 < size)

/-- `persist_images` behind its checks, for one slot. -/
def persistUrl (slot : ProfileImageSlot) (id : Int64) (state : ProfileImageState) (domain : Text)
    (url : Option Text) (clear : Bool) (now : ℤ) : Persisted :=
  let row := if !clear && state.version.isSome then state else bumped slot state url clear now
  { row
    cleanups := if clear && !(rowPaths id slot state).isEmpty then [rowPaths id slot state] else []
    fetches :=
      match url, row.version with
      | some url, some version =>
        if state.suspendedAt.isNone then [⟨id, state.uri, domain, slot, url, version⟩] else []
      | _, _ => [] }

/-- `persist_images` for one slot. An absent field retains its URL. -/
def persistImage (slot : ProfileImageSlot) (id : Int64) (state : ProfileImageState)
    (field : Option (Option Text)) (checkCache : Bool) (now : ℤ) : Persisted :=
  match state.domain with
  | none => ⟨state, [], []⟩
  | some domain =>
    let url := nonempty (field.getD state.remoteUrl)
    let changed := url != nonempty state.remoteUrl
    if url.isNone && !changed && state.fileName.isNone then ⟨state, [], []⟩
    else if !changed && isComplete state && !checkCache then ⟨state, [], []⟩
    else persistUrl slot id state domain url (changed || url.isNone) now

/-! ### Installing -/

/-- A static derivative is prepared for some images. -/
structure PreparedAccountMedia where
  fileName : Text
  contentType : Text
  fileSize : ℤ
  staticBytes : Bool
  deriving DecidableEq

def installMetadata (id : Int64) (slot : ProfileImageSlot) (prepared : PreparedAccountMedia) :
    PaperclipMetadata where
  attachment := slot.attachment
  id := id
  remote := true
  storageSchemaVersion := some 1
  fileName := prepared.fileName
  contentType := some prepared.contentType
  variant := none

/-- What `write_prepared_account_media` writes in turn. It fails where there is no path. -/
def installPaths (metadata : PaperclipMetadata) (prepared : PreparedAccountMedia) :
    List (Option Text) :=
  metadata.relativePath original ::
    if prepared.staticBytes then [metadata.relativePath static] else []

def installed (row : ProfileImageState) (prepared : PreparedAccountMedia) : ProfileImageState :=
  { row with
    fileName := some prepared.fileName
    contentType := some prepared.contentType
    fileSize := some prepared.fileSize
    storageSchemaVersion := some 1 }

/-! ### Cleaning up -/

/-- The same components as `safe_relative_path` asks for. -/
def safeCleanupPath (path : Text) : Bool := !path.isEmpty && safeRelativePath path

/-- Whether a cleanup job is valid. Others fail for ever. -/
def cleanupAccepted (id : Int64) (slot : ProfileImageSlot) (paths : List Text) : Bool :=
  !paths.isEmpty && paths.all fun path => safeCleanupPath path &&
    (parsePaperclipPath path).any fun parsed =>
      parsed.id == id && decide (parsed.attachment = slot.attachment)

/-! ### Steps -/

/-- How far an install has come that holds the lock of the row. -/
inductive Stage where
  | checked
  | writing (remaining : List (Option Text))
  | updated
  deriving DecidableEq

/-- Who holds the lock of the row, in a transaction that is open. -/
inductive Holder where
  | install (job : ProfileImageJob) (prepared : PreparedAccountMedia) (stage : Stage)
  | cleanup (job remaining : List Text)
  deriving DecidableEq

/-- `cleanups` are the jobs that are enqueued or dispatched and not completed. `enqueued`, `fetches`
    and `written` are histories: all jobs that there have been, and all files that installs wrote. -/
structure ImageCache where
  row : ProfileImageState
  holder : Option Holder
  files : List Text
  cleanups : List (List Text)
  enqueued : List (List Text)
  fetches : List ProfileImageJob
  written : List Text
  deriving DecidableEq

/-- Jobs are repeated, and started in any order. -/
inductive CacheOp where
  | persist (field : Option (Option Text)) (checkCache : Bool) (now : ℤ)
  | startInstall (job : ProfileImageJob) (prepared : PreparedAccountMedia)
  | enqueueCleanup
  | createFile
  | unlinkFile
  | fileWritten
  | update
  | commit
  | startCleanup (paths : List Text)
  | removeFile
  | redeliver (paths : List Text)
  | crash
  deriving DecidableEq

variable (id : Int64) (slot : ProfileImageSlot)

/-- A step of an install. A file may be created in part, and unlinked before it is written again. -/
def nextInstall (s : ImageCache) (job : ProfileImageJob) (prepared : PreparedAccountMedia) :
    Stage → CacheOp → Option ImageCache
  | .checked, .enqueueCleanup =>
    let paths := imagePaths (installMetadata id slot prepared) ++ rowPaths id slot s.row
    some { s with
      holder := some (.install job prepared
        (.writing (installPaths (installMetadata id slot prepared) prepared)))
      cleanups := paths :: s.cleanups, enqueued := paths :: s.enqueued }
  | .writing (some path :: _), .createFile =>
    some { s with files := path :: s.files, written := path :: s.written }
  | .writing (some path :: _), .unlinkFile =>
    some { s with files := s.files.filter (· ≠ path) }
  | .writing (some path :: remaining), .fileWritten =>
    if path ∈ s.files then
      some { s with holder := some (.install job prepared (.writing remaining)) }
    else none
  | .writing [], .update => some { s with holder := some (.install job prepared .updated) }
  | .updated, .commit => some { s with row := installed s.row prepared, holder := none }
  | _, _ => none

def nextCleanup (s : ImageCache) (job : List Text) : List Text → CacheOp → Option ImageCache
  | path :: remaining, .removeFile =>
    some { s with
      files := s.files.filter (· ≠ path), holder := some (.cleanup job remaining) }
  | [], .commit => some { s with holder := none, cleanups := s.cleanups.erase job }
  | _, _ => none

/-- A step by which the lock of the row is taken, and left again when nothing is to be done. -/
def nextUnlocked (s : ImageCache) : CacheOp → Option ImageCache
  | .persist field checkCache now =>
    let persisted := persistImage slot id s.row field checkCache now
    some { s with
      row := persisted.row
      cleanups := persisted.cleanups ++ s.cleanups
      enqueued := persisted.cleanups ++ s.enqueued
      fetches := persisted.fetches ++ s.fetches }
  | .startInstall job prepared =>
    if job ∈ s.fetches ∧ s.row.matches job = true then
      some { s with holder := some (.install job prepared .checked) }
    else none
  | .startCleanup paths =>
    if paths ∈ s.enqueued ∧ cleanupAccepted id slot paths = true then
      some { s with
        holder := some (.cleanup paths
          (paths.filter fun path => !(rowPaths id slot s.row).contains path)) }
    else none
  | _ => none

def nextCache (s : ImageCache) : CacheOp → Option ImageCache
  | .crash => some { s with holder := none }
  | .redeliver paths =>
    if paths ∈ s.enqueued then some { s with cleanups := paths :: s.cleanups } else none
  | op =>
    match s.holder with
    | none => nextUnlocked id slot s op
    | some (.install job prepared stage) => nextInstall id slot s job prepared stage op
    | some (.cleanup job remaining) => nextCleanup s job remaining op

/-- No job has been put down yet. -/
structure ImageCache.Initial (s : ImageCache) : Prop where
  holder : s.holder = none
  cleanups : s.cleanups = []
  enqueued : s.enqueued = []
  fetches : s.fetches = []
  written : s.written = []

end Rustodon.Worker
