import Rustodon.Schemes.Bytes
import Rustodon.Web.RackParameters

/-! @src web/request_params.rs | name:Multipart parameters | scheme:bytes | family:web

    The parser of `multipart/form-data`, on what remains of the body. The loop has a number of
    rounds, and there are always enough of them. -/

namespace Rustodon.Web
open Schemes.Bytes Schemes.Checked Schemes.Utf8

abbrev Request := Except RequestParameterError

def split (separator : Char) (text : Text) : List Text := text.splitOn separator

def contentTypeIs (value expected : Text) : Bool :=
  (split ';' value).head?.any fun value => eqIgnoreAsciiCase (trim value) expected

/-- `strip_prefix('"')` and then `strip_suffix('"')`. -/
def unquoted : Text → Option Text
  | '"' :: rest => if rest.getLast? = some '"' then some rest.dropLast else none
  | _ => none

def isAsciiGraphic (c : Char) : Bool := decide (0x21 ≤ c.toNat) && decide (c.toNat ≤ 0x7E)

def boundaryOf (parameter : Text) : Option Text := do
  let (key, value) ← splitOnce ['='] (trim parameter)
  if !eqIgnoreAsciiCase (trim key) "boundary".toList then none
  else
    let value := trim value
    let value := (unquoted value).getD value
    if !value.isEmpty && decide (byteLen value ≤ 70) &&
        value.all fun c => isAsciiGraphic c && c != '"' then some value
    else none

def multipartBoundary (contentType : Text) : Option Text :=
  if !contentTypeIs contentType "multipart/form-data".toList then none
  else ((split ';' contentType).drop 1).findSome? boundaryOf

structure MultipartContentDisposition where
  name : Option Text
  fileName : Option Text

structure MultipartHeaders where
  contentDisposition : MultipartContentDisposition
  contentType : Option Text

def dispositionParameter (result : MultipartContentDisposition) (parameter : Text) :
    Request MultipartContentDisposition := do
  let (key, value) ← okOr (splitOnce ['='] (trim parameter)) .badRequest
  let value ← okOr (unquoted (trim value)) .badRequest
  let key := toAsciiLowercase (trim key)
  if key = "name".toList then return { result with name := some value }
  else if key = "filename".toList then return { result with fileName := some value }
  else return result

def parseContentDisposition (value : Text) : Request MultipartContentDisposition :=
  match split ';' value with
  | [] => .error .badRequest
  | first :: parameters => do
    failIf (!eqIgnoreAsciiCase (trim first) "form-data".toList) .badRequest
    parameters.foldlM dispositionParameter ⟨none, none⟩

def lf : UInt8 := 10

def cr : UInt8 := 13

def colon : UInt8 := 58

/-- The body of the loop over header lines. -/
def headerLine (headers : Option MultipartContentDisposition × Option Text) (line : Bytes) :
    Request (Option MultipartContentDisposition × Option Text) := do
  let line := if line.getLast? = some cr then line.dropLast else line
  failIf line.isEmpty .badRequest
  failIf (!line.contains colon) .badRequest
  let name ← okOr (fromUtf8 (line.takeWhile (· ≠ colon))) .badRequest
  let value ← okOr (fromUtf8 ((line.dropWhile (· ≠ colon)).drop 1)) .badRequest
  let name := trim name
  let value := trim value
  if eqIgnoreAsciiCase name "content-disposition".toList then
    return (some (← parseContentDisposition value), headers.2)
  else if eqIgnoreAsciiCase name "content-type".toList then return (headers.1, some value)
  else return headers

def parseMultipartHeaders (value : Bytes) : Request MultipartHeaders := do
  let (contentDisposition, contentType) ← (value.splitOn lf).foldlM headerLine (none, none)
  return ⟨← okOr contentDisposition .badRequest, contentType⟩

def avatarBytesLimit : ℕ := 8 * 1024 * 1024

/-- The value of a part. -/
def multipartValue (name : Text) (headers : MultipartHeaders) (value : Bytes) : Request RackValue :=
  match headers.contentDisposition.fileName with
  | some fileName =>
    if fileName.isEmpty then .ok .null
    else do
      failIf (fileName.any fun c => c == Char.ofNat 0 || c == '\r' || c == '\n') .badRequest
      failIf ((name = "avatar".toList || name = "header".toList) &&
        decide (value.length ≥ avatarBytesLimit)) .badRequest
      return .upload
        ⟨fileName, headers.contentType.getD "application/octet-stream".toList, value⟩
  | none => do return .scalar (← okOr (fromUtf8 value) .badRequest)

def crlf : Bytes := [cr, lf]

def dashes : Bytes := [45, 45]

/-- A round of the loop: the parameters and what remains behind the next marker. -/
def parsePart (marker : Bytes) (parameters : RackParameters) (count : ℕ) (rest : Bytes) :
    Request (RackParameters × Bytes) := do
  failIf (rest.take 2 ≠ crlf) .badRequest
  let rest := rest.drop 2
  let headerEnd ← okOr (findBytes rest (crlf ++ crlf)) .badRequest
  let headers ← parseMultipartHeaders (rest.take headerEnd)
  let rest := rest.drop (headerEnd + 4)
  let relative ← okOr (findBytes rest (crlf ++ marker)) .badRequest
  let value := rest.take relative
  let name ← okOr headers.contentDisposition.name .badRequest
  let key ← (rackKey name).mapError RackParseError.toRequest
  let (root, segments) ← okOr key .badRequest
  let value ← multipartValue name headers value
  failIf (count + 1 > rackParameterLimit) .internalServer
  let parameters ← (parameters.insert root segments value).mapError RackParseError.toRequest
  return (parameters, rest.drop (relative + 2 + marker.length))

/-- The loop, where `none` means that the rounds have not been enough. -/
def parseParts (marker : Bytes) : ℕ → RackParameters → ℕ → Bytes → Option (Request RackParameters)
  | 0, _, _, _ => none
  | rounds + 1, parameters, count, rest =>
    if rest.take 2 = dashes then
      some (if rest.drop 2 = crlf then .ok parameters else .error .badRequest)
    else
      match parsePart marker parameters count rest with
      | .error e => some (.error e)
      | .ok (parameters, rest) => parseParts marker rounds parameters (count + 1) rest

def parseMultipartParameters (rounds : ℕ) (body : Bytes) (contentType : Text) :
    Option (Request RackParameters) :=
  match multipartBoundary contentType with
  | none => some (.error .badRequest)
  | some boundary =>
    let marker := dashes ++ utf8 boundary
    if marker.isPrefixOf body then parseParts marker rounds .empty 0 (body.drop marker.length)
    else some (.error .badRequest)

/-! ### Termination -/

theorem parsePart_shorter {marker rest rest' : Bytes} {parameters parameters' : RackParameters}
    {count : ℕ} (h : parsePart marker parameters count rest = .ok (parameters', rest')) :
    rest'.length < rest.length := by
  obtain ⟨_, hcrlf, h⟩ := bind_eq_ok h
  obtain ⟨headerEnd, -, h⟩ := bind_eq_ok h
  obtain ⟨headers, -, h⟩ := bind_eq_ok h
  obtain ⟨relative, -, h⟩ := bind_eq_ok h
  obtain ⟨name, -, h⟩ := bind_eq_ok h
  obtain ⟨key, -, h⟩ := bind_eq_ok h
  obtain ⟨⟨root, segments⟩, -, h⟩ := bind_eq_ok h
  obtain ⟨value, -, h⟩ := bind_eq_ok h
  obtain ⟨_, -, h⟩ := bind_eq_ok h
  obtain ⟨inserted, -, h⟩ := bind_eq_ok h
  obtain ⟨-, rfl⟩ := Prod.mk.inj (Except.ok.inj h)
  have hcrlf := failIf_eq_ok hcrlf
  have htake : rest.take 2 = crlf := by simpa using hcrlf
  have hlength := congrArg List.length htake
  simp only [List.length_take, crlf, List.length_cons, List.length_nil] at hlength
  simp only [List.length_drop]
  omega

/-- Every round takes something of the body. -/
theorem parseParts_terminates {marker : Bytes} : ∀ {rest : Bytes} {parameters : RackParameters}
    {count : ℕ}, ∃ result, ∀ rounds, rest.length < rounds →
      parseParts marker rounds parameters count rest = some result := by
  intro rest
  induction hlength : rest.length using Nat.strong_induction_on generalizing rest with
  | _ length ih =>
    intro parameters count
    by_cases hend : rest.take 2 = dashes
    · refine ⟨if rest.drop 2 = crlf then .ok parameters else .error .badRequest, fun rounds h => ?_⟩
      obtain ⟨rounds, rfl⟩ := Nat.exists_eq_add_of_le' (show 1 ≤ rounds by omega)
      rw [parseParts, if_pos hend]
    · cases hpart : parsePart marker parameters count rest with
      | error e =>
        refine ⟨.error e, fun rounds h => ?_⟩
        obtain ⟨rounds, rfl⟩ := Nat.exists_eq_add_of_le' (show 1 ≤ rounds by omega)
        rw [parseParts, if_neg hend, hpart]
      | ok part =>
        obtain ⟨parameters', rest'⟩ := part
        have hshorter := parsePart_shorter hpart
        obtain ⟨result, hresult⟩ : ∃ result, ∀ rounds, rest'.length < rounds →
            parseParts marker rounds parameters' (count + 1) rest' = some result :=
          ih rest'.length (hlength ▸ hshorter) rfl
        refine ⟨result, fun rounds h => ?_⟩
        obtain ⟨rounds, rfl⟩ := Nat.exists_eq_add_of_le' (show 1 ≤ rounds by omega)
        rw [parseParts, if_neg hend, hpart]
        exact hresult rounds (by omega)

theorem parseMultipartParameters_terminates (body : Bytes) (contentType : Text) :
    ∃ result, ∀ rounds, body.length < rounds →
      parseMultipartParameters rounds body contentType = some result := by
  unfold parseMultipartParameters
  cases multipartBoundary contentType with
  | none => exact ⟨_, fun _ _ => rfl⟩
  | some boundary =>
    simp only
    split_ifs
    · obtain ⟨result, hresult⟩ := @parseParts_terminates (dashes ++ utf8 boundary)
        (body.drop (dashes ++ utf8 boundary).length) .empty 0
      refine ⟨result, fun rounds h => hresult rounds ?_⟩
      rw [List.length_drop]
      omega
    · exact ⟨_, fun _ _ => rfl⟩

end Rustodon.Web
