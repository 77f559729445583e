import Mathlib.Algebra.Group.Nat.Defs
import Mathlib.Data.List.SplitOn
import Rustodon.Schemes.Percent

/-! @src paperclip.rs | name:Paperclip paths | scheme:utf8-text | family:media

    The path of a stored file is made from its metadata, and a request path is read back into an
    attachment and an id before the metadata is looked up. -/

namespace Rustodon.Media
open Schemes.Utf8 Schemes.Bytes Schemes.Percent

inductive PaperclipAttachment where
  | accountAvatar
  | accountHeader
  | mediaFile
  | mediaThumbnail
  | customEmojiImage
  | previewCardImage
  | previewCardProviderIcon
  | siteUploadFile
  deriving DecidableEq, Repr

namespace PaperclipAttachment

def path : PaperclipAttachment → Text
  | accountAvatar => "accounts/avatars".toList
  | accountHeader => "accounts/headers".toList
  | mediaFile => "media_attachments/files".toList
  | mediaThumbnail => "media_attachments/thumbnails".toList
  | customEmojiImage => "custom_emojis/images".toList
  | previewCardImage => "preview_cards/images".toList
  | previewCardProviderIcon => "preview_card_providers/icons".toList
  | siteUploadFile => "site_uploads/files".toList

def permitsCache : PaperclipAttachment → Bool
  | accountAvatar | accountHeader | mediaFile | mediaThumbnail | customEmojiImage
  | previewCardImage => true
  | previewCardProviderIcon | siteUploadFile => false

def all : List PaperclipAttachment :=
  [accountAvatar, accountHeader, mediaFile, mediaThumbnail, customEmojiImage, previewCardImage,
    previewCardProviderIcon, siteUploadFile]

end PaperclipAttachment

structure PaperclipMetadata where
  attachment : PaperclipAttachment
  id : Int64
  remote : Bool
  storageSchemaVersion : Option ℤ
  fileName : Text
  contentType : Option Text
  variant : Option Text
  deriving DecidableEq

/-! ### Names -/

/-- `char::is_control`. -/
def isControl (c : Char) : Bool := decide (c.toNat < 32) || decide (127 ≤ c.toNat ∧ c.toNat < 160)

def safeComponent (value : Text) : Bool :=
  !value.isEmpty && !(decide (value = ['.']) || decide (value = ['.', '.'])) &&
    !value.any (fun c => c == '/' || c == '\\' || c == '\x00') && !value.any isControl

/-- `rsplit_once` at a character. -/
def rsplitOnce (c : Char) (s : Text) : Option (Text × Text) :=
  (splitOnce [c] s.reverse).map fun (after, before) => (before.reverse, after.reverse)

/-- A name that starts with its only dot is kept whole. -/
def derivativeBase (fileName : Text) : Text :=
  match rsplitOnce '.' fileName with
  | some (base, _) => if base.isEmpty then fileName else base
  | none => fileName

def derivativeFileName (fileName ext : Text) : Option Text :=
  let base := derivativeBase fileName
  if base.isEmpty then none else some (base ++ '.' :: ext)

/-- Three characters at a time; what remains is dropped. -/
def chunksExact : Text → List Text
  | a :: b :: c :: rest => [a, b, c] :: chunksExact rest
  | _ => []

/-- `join("/")`. -/
def join (components : List Text) : Text := ['/'].intercalate components

def partitionWidth (digits : ℕ) : Option ℕ :=
  if digits ≤ 9 then some 9
  else if digits ≤ 12 then some 12
  else if digits % 3 = 0 then some digits
  else none

def partitionedId (id : Int64) : Option Text :=
  if id.toInt ≤ 0 then none
  else
    let digits := Nat.toDigits 10 id.toInt.toNat
    (partitionWidth digits.length).map fun width => join (chunksExact (digits.leftpad width '0'))

/-! ### Paths of files -/

def appIconStyles : List Text :=
  ["36".toList, "48".toList, "57".toList, "60".toList, "72".toList, "76".toList, "96".toList,
    "114".toList, "120".toList, "144".toList, "152".toList, "167".toList, "180".toList,
    "192".toList, "256".toList, "384".toList, "512".toList, "1024".toList]

def faviconStyles : List Text := ["16".toList, "32".toList, "48".toList]

def thumbnailStyles : List Text := ["@1x".toList, "@2x".toList]

def original : Text := "original".toList

def static : Text := "static".toList

def small : Text := "small".toList

def mascot : Text := "mascot".toList

/-- `media_format`, as far as the preview goes: a supported type may have none. -/
def previewContentType (contentType : Text) : Option (Option Text) :=
  if contentType = "image/jpeg".toList then some (some "image/jpeg".toList)
  else if contentType = "image/png".toList then some (some "image/png".toList)
  else if contentType = "image/gif".toList then some (some "image/png".toList)
  else if contentType = "image/webp".toList then some (some "image/webp".toList)
  else if contentType ∈ ["image/heic".toList, "image/heif".toList, "image/avif".toList] then
    some (some "image/jpeg".toList)
  else if contentType ∈ ["video/webm".toList, "video/mp4".toList, "video/quicktime".toList,
      "video/ogg".toList, "video/x-ms-asf".toList] then some (some "image/png".toList)
  else if contentType ∈ ["audio/wave".toList, "audio/wav".toList, "audio/x-wav".toList,
      "audio/x-pn-wave".toList, "audio/vnd.wave".toList, "audio/ogg".toList, "audio/vorbis".toList,
      "audio/mpeg".toList, "audio/mp3".toList, "audio/webm".toList, "audio/flac".toList,
      "audio/aac".toList, "audio/m4a".toList, "audio/x-m4a".toList, "audio/mp4".toList,
      "audio/3gpp".toList] then some none
  else none

namespace PaperclipMetadata

variable (m : PaperclipMetadata)

def mediaFileContentType (style : Text) : Option Text := do
  if m.attachment ≠ .mediaFile then none
  else
    let contentType ← m.contentType
    let preview ← previewContentType contentType
    if style = original then some contentType
    else if style = small then preview
    else none

def cachePrefix : Bool :=
  m.attachment.permitsCache && m.remote && decide (1 ≤ m.storageSchemaVersion.getD 0)

/-- The styles of a site upload, by its variant. -/
def siteUploadFileName (style : Text) (png : Option Text) : Option Text := do
  let variant ← m.variant
  if variant = "app_icon".toList then if appIconStyles.contains style then png else none
  else if variant = "favicon".toList then if faviconStyles.contains style then png else none
  else if variant = "thumbnail".toList then if thumbnailStyles.contains style then png else none
  else if variant = mascot then if style = mascot then some m.fileName else none
  else none

def styleFileName (style : Text) : Option Text :=
  if !safeComponent m.fileName then none
  else if style = original then some m.fileName
  else
    let png := derivativeFileName m.fileName "png".toList
    match m.attachment with
    | .accountAvatar | .accountHeader =>
      if style = static ∧ m.contentType = some "image/gif".toList then png else none
    | .customEmojiImage | .previewCardProviderIcon => if style = static then png else none
    | .mediaFile =>
      if style = small then do
        let contentType ← m.mediaFileContentType style
        if some contentType = m.contentType then some m.fileName
        else if contentType = "image/png".toList then png
        else if contentType = "image/jpeg".toList then derivativeFileName m.fileName "jpeg".toList
        else none
      else none
    | .siteUploadFile => m.siteUploadFileName style png
    | .mediaThumbnail | .previewCardImage => none

def relativePath (style : Text) : Option Text := do
  let partition ← partitionedId m.id
  let fileName ← m.styleFileName style
  let cache := if m.cachePrefix then "cache/".toList else []
  some (cache ++ m.attachment.path ++ '/' :: partition ++ '/' :: style ++ '/' :: fileName)

end PaperclipMetadata

/-! ### Request paths -/

structure PaperclipPath where
  relativePath : Text
  attachment : PaperclipAttachment
  id : Int64
  deriving DecidableEq

def PaperclipPath.style (q : PaperclipPath) : Text :=
  match rsplitOnce '/' q.relativePath with
  | none => []
  | some (parent, _) => ((rsplitOnce '/' parent).map Prod.snd).getD []

def PaperclipPath.authorizes (q : PaperclipPath) (m : PaperclipMetadata) : Bool :=
  decide (m.relativePath q.style = some q.relativePath)

def validPercentEncoding : Bytes → Bool
  | [] => true
  | b :: rest =>
    if b = percent then
      match rest with
      | high :: low :: rest =>
        (hexValue high).isSome && (hexValue low).isSome && validPercentEncoding rest
      | _ => false
    else validPercentEncoding rest

def decodeComponent (value : Text) : Option Text :=
  if value.isEmpty then none
  else (fromUtf8 (decode (utf8 value))).filter safeComponent

/-- The bytes outside `URL_PATH_COMPONENT`: letters, digits and the ones that are removed from it. -/
def isPathByte (b : UInt8) : Bool :=
  decide (b.toNat < 128) && (Char.ofNat b.toNat).isAlphanum ||
    [33, 36, 38, 39, 42, 44, 45, 46, 58, 59, 61, 64, 95, 126].contains b.toNat

/-- `utf8_percent_encode`, whose output is ASCII. -/
def encodeComponent (component : Text) : Text :=
  (encode isPathByte (utf8 component)).map fun b => Char.ofNat b.toNat

def encodeUrlPath (path : Text) : Text := join ((path.splitOn '/').map encodeComponent)

def attachmentForPath (path : Text) : Option PaperclipAttachment :=
  PaperclipAttachment.all.find? fun attachment => decide (attachment.path = path)

def attachmentPermitsStyle (attachment : PaperclipAttachment) (style : Text) : Bool :=
  match attachment with
  | .accountAvatar | .accountHeader => decide (style = original) || decide (style = static)
  | .mediaFile => decide (style = original) || decide (style = small)
  | .mediaThumbnail | .previewCardImage => decide (style = original)
  | .customEmojiImage | .previewCardProviderIcon =>
    decide (style = original) || decide (style = static)
  | .siteUploadFile =>
    decide (style = original) || appIconStyles.contains style || faviconStyles.contains style ||
      thumbnailStyles.contains style || decide (style = mascot)

/-- `str::parse::<i64>` of digits. -/
def parseDigits (digits : Text) : Option Int64 :=
  let n := Nat.ofDigitChars 10 digits 0
  if n < 2 ^ 63 then some (Int64.ofNat n) else none

def isPartition (part : Text) : Bool := decide (byteLen part = 3) && part.all Char.isDigit

def isStyleChar (c : Char) : Bool := c.isAlphanum || c == '_' || c == '-' || c == '@'

/-- `parse_paperclip_path`, behind the decoding of the components. -/
def parseComponents (components : List Text) : Option PaperclipPath := do
  if components.length < 7 then none
  else
    let cacheOffset := if components.head? = some "cache".toList then 1 else 0
    let first ← components[cacheOffset]?
    let second ← components[cacheOffset + 1]?
    let attachment ← attachmentForPath (first ++ '/' :: second)
    if cacheOffset = 1 ∧ !attachment.permitsCache then none
    else
      let partitionStart := cacheOffset + 2
      let styleIndex := components.length - 2
      if styleIndex ≤ partitionStart then none
      else
        let partition := (components.take styleIndex).drop partitionStart
        if partition.length < 3 || partition.any fun part => !isPartition part then none
        else
          let id ← parseDigits partition.flatten
          let canonical ← partitionedId id
          if canonical.splitOn '/' ≠ partition then none
          else
            let style ← components[styleIndex]?
            let fileName ← components[styleIndex + 1]?
            if !style.all isStyleChar || !attachmentPermitsStyle attachment style ||
                !safeComponent fileName then none
            else some ⟨join components, attachment, id⟩

def parsePaperclipPath (path : Text) : Option PaperclipPath := do
  if path.isEmpty || decide (path.head? = some '/') || !validPercentEncoding (utf8 path) then none
  else
    let components ← (path.splitOn '/').mapM decodeComponent
    parseComponents components

/-! ### Opening files -/

inductive Component where
  | rootDir
  | curDir
  | parentDir
  | normal (component : Text)
  deriving DecidableEq, Repr

def componentOf (piece : Text) : Component :=
  if piece = ['.', '.'] then .parentDir else .normal piece

/-- `Path::components`: empty pieces are skipped, and a dot unless the path starts with it. -/
def pathComponents (path : Text) : List Component :=
  let pieces := path.splitOn '/'
  let start : List Component :=
    if path.head? = some '/' then [.rootDir]
    else if pieces.head? = some ['.'] then [.curDir] else []
  start ++ ((pieces.filter fun piece => !piece.isEmpty && !decide (piece = ['.'])).map componentOf)

def safeRelativePath (path : Text) : Bool :=
  !(pathComponents path).isEmpty && (pathComponents path).all fun component =>
    match component with
    | .normal component => safeComponent component
    | _ => false

end Rustodon.Media
