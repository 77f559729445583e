import Rustodon.Web.Multipart

/-! @src web/request_params.rs | name:Round trip of multipart parameters | scheme:bytes | family:web

    What a client sends for some fields and files is read as these fields and files. The parser cuts
    a `Content-Disposition` at every semicolon, also in quotes, and refuses what is large: names
    without semicolons and parts within the limits are what it is for. -/

namespace Rustodon.Web
open Schemes.Bytes Schemes.Checked Schemes.Utf8

/-! ### What is sent -/

/-- `char::is_control`. -/
def isControl (c : Char) : Bool :=
  decide (c.toNat < 32) || decide (127 ≤ c.toNat) && decide (c.toNat < 160)

structure FieldName where
  text : Text
  plain : ∀ c ∈ text, c ≠ '"' ∧ isControl c = false

structure FileName where
  text : Text
  nonempty : text ≠ []
  plain : ∀ c ∈ text, c ≠ '"' ∧ c ≠ Char.ofNat 0 ∧ c ≠ '\r' ∧ c ≠ '\n'

/-- The value of a `Content-Type` header, of a single line and without surrounding blanks. -/
structure MediaType where
  text : Text
  line : ∀ c ∈ text, c ≠ '\r' ∧ c ≠ '\n'
  trimmed : trim text = text

/-- `bchars` of RFC 2046. -/
def isBoundaryChar (c : Char) : Bool := c.isAlphanum || "'()+_,-./:=? ".toList.contains c

structure Boundary where
  text : Text
  nonempty : text ≠ []
  length_le : text.length ≤ 70
  chars : ∀ c ∈ text, isBoundaryChar c = true
  last : text.getLast? ≠ some ' '

inductive Part where
  | field (name : FieldName) (value : Text)
  | file (name : FieldName) (fileName : FileName) (contentType : MediaType) (bytes : Bytes)

def Part.name : Part → Text
  | .field name _ | .file name _ _ _ => name.text

def Part.fileName : Part → Option Text
  | .field _ _ => none
  | .file _ fileName _ _ => some fileName.text

def Part.contentType : Part → Option Text
  | .field _ _ => none
  | .file _ _ contentType _ => some contentType.text

def Part.bytes : Part → Bytes
  | .field _ value => utf8 value
  | .file _ _ _ bytes => bytes

/-- The value that a part stands for. -/
def Part.value : Part → RackValue
  | .field _ value => .scalar value
  | .file _ fileName contentType bytes => .upload ⟨fileName.text, contentType.text, bytes⟩

def quoted (text : Text) : Text := '"' :: text ++ ['"']

def parameterText (key value : Text) : Text := ' ' :: key ++ '=' :: quoted value

def Part.parameters (part : Part) : List Text :=
  parameterText "name".toList part.name ::
    (part.fileName.map (parameterText "filename".toList)).toList

def formData : Text := "form-data".toList

def Part.disposition (part : Part) : Text := formData ++ part.parameters.flatMap (';' :: ·)

def headerText (name value : Text) : Text := name ++ ':' :: ' ' :: value

def contentDispositionName : Text := "Content-Disposition".toList

def contentTypeName : Text := "Content-Type".toList

def Part.headers (part : Part) : Bytes :=
  utf8 (headerText contentDispositionName part.disposition) ++
    part.contentType.elim [] fun contentType =>
      crlf ++ utf8 (headerText contentTypeName contentType)

/-- A part between two markers. -/
def encodePart (marker : Bytes) (part : Part) : Bytes :=
  crlf ++ (part.headers ++ ((crlf ++ crlf) ++ (part.bytes ++ (crlf ++ marker))))

def Boundary.marker (boundary : Boundary) : Bytes := dashes ++ utf8 boundary.text

def encodeMultipart (boundary : Boundary) (parts : List Part) : Bytes :=
  boundary.marker ++ (parts.flatMap (encodePart boundary.marker) ++ (dashes ++ crlf))

def multipartContentType (boundary : Boundary) (inQuotes : Bool) : Text :=
  "multipart/form-data; boundary=".toList ++
    if inQuotes then quoted boundary.text else boundary.text

/-! ### What is read -/

def insertPart (parameters : RackParameters) (part : Part) : Request RackParameters := do
  let key ← (rackKey part.name).mapError RackParseError.toRequest
  let (root, segments) ← okOr key .badRequest
  (parameters.insert root segments part.value).mapError RackParseError.toRequest

/-- The names and values inserted in order. -/
def insertParts (parts : List Part) : Request RackParameters := parts.foldlM insertPart .empty

/-! ### Texts -/

theorem trim_eq_self {s : Text} (hfirst : ∀ c, s.head? = some c → isWhitespace c = false)
    (hlast : ∀ c, s.getLast? = some c → isWhitespace c = false) : trim s = s := by
  have hstart : ∀ t : Text, (∀ c, t.head? = some c → isWhitespace c = false) → trimStart t = t := by
    intro t ht
    cases t with
    | nil => rfl
    | cons c t => exact List.dropWhile_cons_of_neg (by simp [ht c rfl])
  rw [trim, hstart s hfirst, hstart s.reverse (by simpa using hlast), List.reverse_reverse]

theorem trim_blank (s : Text) : trim (' ' :: s) = trim s := by
  have hblank : isWhitespace ' ' = true := by decide
  have hstart : trimStart (' ' :: s) = trimStart s := List.dropWhile_cons_of_pos hblank
  rw [trim, trim, hstart]

theorem unquoted_quoted (text : Text) : unquoted (quoted text) = some text := by
  simp [quoted, unquoted]

theorem getLast?_quoted (text : Text) : (quoted text).getLast? = some '"' := by
  simp [quoted, List.getLast?_cons]

theorem trim_quoted (text : Text) : trim (quoted text) = quoted text := by
  refine trim_eq_self (fun c h => ?_) (fun c h => ?_)
  · obtain rfl : '"' = c := by simpa [quoted] using h
    decide
  · rw [getLast?_quoted] at h
    obtain rfl := Option.some.inj h
    decide

/-- A parameter of a disposition, with a key that is read as it stands. -/
theorem dispositionParameter_eq {key value : Text} (hequals : '=' ∉ key) (htrim : trim key = key)
    (hfirst : key.head?.any isWhitespace = false) (hkey : key ≠ [])
    (result : MultipartContentDisposition) :
    dispositionParameter result (parameterText key value) =
      if toAsciiLowercase key = "name".toList then .ok { result with name := some value }
      else if toAsciiLowercase key = "filename".toList then
        .ok { result with fileName := some value }
      else .ok result := by
  have hwhole : trim (parameterText key value) = key ++ '=' :: quoted value := by
    rw [parameterText, List.cons_append, trim_blank]
    refine trim_eq_self (fun c h => ?_) (fun c h => ?_)
    · cases key with
      | nil => exact absurd rfl hkey
      | cons d key =>
        obtain rfl : d = c := Option.some.inj h
        exact hfirst
    · rw [List.getLast?_append, List.getLast?_cons, getLast?_quoted] at h
      obtain rfl : '"' = c := by simpa using h
      decide
  rw [dispositionParameter, hwhole, splitOnce_separator hequals, okOr_some_bind]
  simp only
  rw [trim_quoted, unquoted_quoted, okOr_some_bind, htrim]
  rfl

/-! ### Headers -/

theorem split_append {c : Char} {s t : Text} (h : c ∉ s) :
    split c (s ++ c :: t) = s :: split c t := List.splitOn_append_cons_self_of_not_mem h t

theorem split_single {c : Char} {s : Text} (h : c ∉ s) : split c s = [s] :=
  List.splitOn_eq_singleton h

/-- No name in the disposition of a part has a semicolon. -/
def Part.Unseparated (part : Part) : Prop :=
  ';' ∉ part.name ∧ ∀ fileName, part.fileName = some fileName → ';' ∉ fileName

theorem not_mem_parameterText {key value : Text} (hkey : ';' ∉ key) (hvalue : ';' ∉ value) :
    ';' ∉ parameterText key value := by
  simp [parameterText, quoted, hkey, hvalue]

theorem parameter_name (result : MultipartContentDisposition) (value : Text) :
    dispositionParameter result (parameterText "name".toList value) =
      .ok { result with name := some value } :=
  dispositionParameter_eq (by decide) (by decide) (by decide) (by decide) result

theorem parameter_filename (result : MultipartContentDisposition) (value : Text) :
    dispositionParameter result (parameterText "filename".toList value) =
      .ok { result with fileName := some value } :=
  dispositionParameter_eq (by decide) (by decide) (by decide) (by decide) result

/-- A disposition with the parameters that are put into it. -/
theorem parseContentDisposition_parameters {first : Text} {parameters : List Text}
    (hfirst : ';' ∉ first)
    (hform : eqIgnoreAsciiCase (trim first) "form-data".toList = true)
    (hparameters : ∀ parameter ∈ parameters, ';' ∉ parameter) :
    parseContentDisposition (first ++ parameters.flatMap (';' :: ·)) =
      parameters.foldlM dispositionParameter ⟨none, none⟩ := by
  have hsplit : ∀ {first : Text} {parameters : List Text}, ';' ∉ first →
      (∀ parameter ∈ parameters, ';' ∉ parameter) →
        split ';' (first ++ parameters.flatMap (';' :: ·)) = first :: parameters := by
    intro first parameters hfirst hparameters
    induction parameters generalizing first with
    | nil => simpa using split_single hfirst
    | cons parameter parameters ih =>
      rw [List.flatMap_cons, List.cons_append, split_append hfirst,
        ih (hparameters parameter List.mem_cons_self) fun p hp =>
          hparameters p (List.mem_cons_of_mem _ hp)]
  rw [parseContentDisposition, hsplit hfirst hparameters]
  simp only [hform, Bool.not_true, failIf_false, ok_bind]

/-- A disposition without further semicolons is read as it is written. -/
theorem parseContentDisposition_eq {part : Part} (h : part.Unseparated) :
    parseContentDisposition part.disposition = .ok ⟨some part.name, part.fileName⟩ := by
  have hname : ';' ∉ parameterText "name".toList part.name :=
    not_mem_parameterText (by decide) h.1
  have hparameters : ∀ parameter ∈ part.parameters, ';' ∉ parameter := by
    refine List.forall_mem_cons.mpr ⟨hname, fun parameter hparameter => ?_⟩
    obtain ⟨fileName, hfile, rfl⟩ := Option.map_eq_some_iff.mp (Option.mem_toList.mp hparameter)
    exact not_mem_parameterText (by decide) (h.2 fileName hfile)
  have hform : eqIgnoreAsciiCase (trim formData) "form-data".toList = true := by decide
  rw [Part.disposition, parseContentDisposition_parameters (by decide) hform hparameters,
    Part.parameters, List.foldlM_cons, parameter_name, ok_bind]
  cases part.fileName with
  | none => rfl
  | some fileName =>
    rw [Option.map_some, Option.toList_some, List.foldlM_cons, parameter_filename, ok_bind]
    rfl

theorem ascii_takeWhile {name : Text} {rest : Bytes} (h : ∀ c ∈ name, c.toNat < 128 ∧ c ≠ ':') :
    (utf8 name ++ colon :: rest).takeWhile (· ≠ colon) = utf8 name ∧
      (utf8 name ++ colon :: rest).dropWhile (· ≠ colon) = colon :: rest := by
  have hne : ∀ b ∈ utf8 name, decide (b ≠ colon) = true := by
    intro b hb
    rw [decide_eq_true_eq]
    rintro rfl
    obtain ⟨c, hc, heq⟩ := mem_utf8 hb (by decide)
    exact (h c hc).2 (Char.toNat_inj.mp heq)
  constructor
  · rw [List.takeWhile_append_of_pos hne]
    simp
  · rw [List.dropWhile_append_of_pos hne]
    simp

/-- A line is read as a name and a value, with or without its carriage return. -/
theorem headerLine_eq {name value : Text} {line : Bytes}
    (hname : ∀ c ∈ name, c.toNat < 128 ∧ c ≠ ':') (hvalue : '\r' ∉ headerText name value)
    (hline : line = utf8 (headerText name value) ∨ line = utf8 (headerText name value) ++ [cr])
    (headers : Option MultipartContentDisposition × Option Text) :
    headerLine headers line =
      if eqIgnoreAsciiCase (trim name) "content-disposition".toList then do
        return (some (← parseContentDisposition (trim value)), headers.2)
      else if eqIgnoreAsciiCase (trim name) "content-type".toList then
        .ok (headers.1, some (trim value))
      else .ok headers := by
  have htext : utf8 (headerText name value) = utf8 name ++ colon :: utf8 (' ' :: value) := by
    rw [headerText, utf8_append, utf8_cons, utf8_ascii (by decide)]
    rfl
  have hstrip : (if line.getLast? = some cr then line.dropLast else line) =
      utf8 (headerText name value) := by
    rcases hline with rfl | rfl
    · have hlast : (utf8 (headerText name value)).getLast? ≠ some cr := by
        intro hlast
        exact not_mem_utf8 hvalue (by decide) (List.mem_of_getLast? hlast)
      rw [if_neg hlast]
    · simp
  obtain ⟨htake, hdrop⟩ := @ascii_takeWhile name (utf8 (' ' :: value)) hname
  have hempty : (utf8 name ++ colon :: utf8 (' ' :: value)).isEmpty = false := by simp
  have hcontains : (utf8 name ++ colon :: utf8 (' ' :: value)).contains colon = true := by simp
  rw [headerLine, hstrip, htext]
  simp only [htake, hdrop, hempty, hcontains, Bool.not_true, failIf_false, ok_bind,
    List.drop_succ_cons, List.drop_zero, fromUtf8_utf8, okOr_some_bind, trim_blank]
  rfl

theorem oneLine_headerText {name value : Text} (hname : OneLine name) (hvalue : OneLine value) :
    OneLine (headerText name value) :=
  hname.append (List.forall_mem_cons.mpr ⟨by decide, List.forall_mem_cons.mpr ⟨by decide, hvalue⟩⟩)

theorem oneLine_parameterText {key value : Text} (hkey : OneLine key) (hvalue : OneLine value) :
    OneLine (parameterText key value) := by
  have hquoted : OneLine (quoted value) :=
    List.forall_mem_cons.mpr ⟨by decide, OneLine.append hvalue (by decide)⟩
  exact List.forall_mem_cons.mpr
    ⟨by decide, hkey.append (List.forall_mem_cons.mpr ⟨by decide, hquoted⟩)⟩

theorem oneLine_name (part : Part) : OneLine part.name := by
  have hplain : ∀ name : FieldName, OneLine name.text := by
    intro name c hc
    have hcontrol := (name.plain c hc).2
    constructor <;> (rintro rfl; revert hcontrol; decide)
  cases part with
  | field name value => exact hplain name
  | file name fileName contentType bytes => exact hplain name

theorem oneLine_fileName {part : Part} {fileName : Text} (h : part.fileName = some fileName) :
    OneLine fileName := by
  cases part with
  | field name value => cases h
  | file name fileName contentType bytes =>
    obtain rfl := Option.some.inj h
    exact fun c hc => (fileName.plain c hc).2.2

theorem oneLine_disposition (part : Part) : OneLine part.disposition := by
  have hparameters : ∀ parameter ∈ part.parameters, OneLine parameter := by
    refine List.forall_mem_cons.mpr ⟨oneLine_parameterText (by decide) (oneLine_name part), ?_⟩
    intro parameter hparameter
    obtain ⟨fileName, hfile, rfl⟩ := Option.map_eq_some_iff.mp (Option.mem_toList.mp hparameter)
    exact oneLine_parameterText (by decide) (oneLine_fileName hfile)
  refine OneLine.append (by decide) fun c hc => ?_
  obtain ⟨parameter, hparameter, hc⟩ := List.mem_flatMap.mp hc
  rcases List.mem_cons.mp hc with rfl | hc
  · decide
  · exact hparameters parameter hparameter c hc

theorem getLast?_parameterText (key value : Text) :
    (parameterText key value).getLast? = some '"' := by
  simp [parameterText, List.getLast?_append, List.getLast?_cons, getLast?_quoted]

theorem trim_disposition (part : Part) : trim part.disposition = part.disposition := by
  refine trim_eq_self (fun c h => ?_) (fun c h => ?_)
  · have hhead : formData.head? = some 'f' := by decide
    rw [Part.disposition, List.head?_append, hhead] at h
    obtain rfl := Option.some.inj h
    decide
  · have hlast : part.disposition.getLast? = some '"' := by
      rw [Part.disposition, Part.parameters]
      cases part.fileName with
      | none => simp [List.getLast?_append, List.getLast?_cons, getLast?_parameterText]
      | some fileName => simp [List.getLast?_append, List.getLast?_cons, getLast?_parameterText]
    rw [hlast] at h
    obtain rfl := Option.some.inj h
    decide

theorem not_mem_line_end {s : Text} (h : OneLine s) : lf ∉ utf8 s ∧ cr ∉ utf8 s :=
  ⟨not_mem_utf8 (fun hc => (h _ hc).2 rfl) (by decide),
    not_mem_utf8 (fun hc => (h _ hc).1 rfl) (by decide)⟩

theorem oneLine_disposition_header (part : Part) :
    OneLine (headerText contentDispositionName part.disposition) :=
  oneLine_headerText (by decide) (oneLine_disposition part)

/-- The line of the disposition. -/
theorem headerLine_disposition {part : Part} (h : part.Unseparated) {line : Bytes}
    (hline : line = utf8 (headerText contentDispositionName part.disposition) ∨
      line = utf8 (headerText contentDispositionName part.disposition) ++ [cr])
    (headers : Option MultipartContentDisposition × Option Text) :
    headerLine headers line = .ok (some ⟨some part.name, part.fileName⟩, headers.2) := by
  have hname : eqIgnoreAsciiCase (trim contentDispositionName) "content-disposition".toList = true := by
    decide
  rw [headerLine_eq (by decide) (fun hc => (oneLine_disposition_header part _ hc).1 rfl) hline,
    if_pos hname, trim_disposition, parseContentDisposition_eq h]
  rfl

theorem headerLine_contentType {contentType : Text} (hline : OneLine contentType)
    (htrim : trim contentType = contentType)
    (headers : Option MultipartContentDisposition × Option Text) :
    headerLine headers (utf8 (headerText contentTypeName contentType)) =
      .ok (headers.1, some contentType) := by
  have hname : eqIgnoreAsciiCase (trim contentTypeName) "content-disposition".toList = false := by
    decide
  have hname' : eqIgnoreAsciiCase (trim contentTypeName) "content-type".toList = true := by
    decide
  have hheader : OneLine (headerText contentTypeName contentType) :=
    oneLine_headerText (by decide) hline
  rw [headerLine_eq (by decide) (fun hc => (hheader _ hc).1 rfl) (.inl rfl), hname, if_pos hname',
    htrim]
  rfl

theorem contentType_plain {part : Part} {contentType : Text}
    (h : part.contentType = some contentType) :
    OneLine contentType ∧ trim contentType = contentType := by
  cases part with
  | field name value => cases h
  | file name fileName contentType bytes =>
    obtain rfl := Option.some.inj h
    exact ⟨contentType.line, contentType.trimmed⟩

theorem parseMultipartHeaders_eq {part : Part} (h : part.Unseparated) :
    parseMultipartHeaders part.headers =
      .ok ⟨⟨some part.name, part.fileName⟩, part.contentType⟩ := by
  obtain ⟨hlf, -⟩ := not_mem_line_end (oneLine_disposition_header part)
  rw [parseMultipartHeaders, Part.headers]
  cases htype : part.contentType with
  | none =>
    rw [Option.elim_none, List.append_nil, List.splitOn_eq_singleton hlf, List.foldlM_cons,
      headerLine_disposition h (.inl rfl), ok_bind]
    rfl
  | some contentType =>
    obtain ⟨hline, htrim⟩ := contentType_plain htype
    have hheader : OneLine (headerText contentTypeName contentType) :=
      oneLine_headerText (by decide) hline
    have hlf' : lf ∉ utf8 (headerText contentDispositionName part.disposition) ++ [cr] := by
      rw [List.mem_append, List.mem_singleton, not_or]
      exact ⟨hlf, by decide⟩
    have hlines : utf8 (headerText contentDispositionName part.disposition) ++
        (crlf ++ utf8 (headerText contentTypeName contentType)) =
          (utf8 (headerText contentDispositionName part.disposition) ++ [cr]) ++
            lf :: utf8 (headerText contentTypeName contentType) := by
      simp [crlf]
    rw [Option.elim_some, hlines, List.splitOn_append_cons_self_of_not_mem hlf',
      List.splitOn_eq_singleton (not_mem_line_end hheader).1, List.foldlM_cons,
      headerLine_disposition h (.inr rfl), ok_bind, List.foldlM_cons,
      headerLine_contentType hline htrim, ok_bind]
    rfl

/-! ### Bodies -/

/-- What the parser makes of a part, by its limits. -/
def acceptPart (parameters : RackParameters) (count : ℕ) (part : Part) : Request RackParameters := do
  let key ← (rackKey part.name).mapError RackParseError.toRequest
  let (root, segments) ← okOr key .badRequest
  let value ← multipartValue part.name ⟨⟨some part.name, part.fileName⟩, part.contentType⟩ part.bytes
  failIf (count + 1 > rackParameterLimit) .internalServer
  (parameters.insert root segments value).mapError RackParseError.toRequest

def acceptParts : RackParameters → ℕ → List Part → Request RackParameters
  | parameters, _, [] => .ok parameters
  | parameters, count, part :: parts => do
    acceptParts (← acceptPart parameters count part) (count + 1) parts

variable {marker tail : Bytes} {part : Part}

theorem cr_not_mem_headers (part : Part) :
    ∃ first rest, part.headers = first ++ rest ∧ cr ∉ first ∧
      (rest = [] ∨ ∃ line, rest = crlf ++ line ∧ cr ∉ line ∧ line.head? ≠ some cr ∧ line ≠ []) := by
  refine ⟨_, _, rfl, (not_mem_line_end (oneLine_disposition_header part)).2, ?_⟩
  cases htype : part.contentType with
  | none => exact .inl rfl
  | some contentType =>
    have hheader : OneLine (headerText contentTypeName contentType) :=
      oneLine_headerText (by decide) (contentType_plain htype).1
    have hcr := (not_mem_line_end hheader).2
    refine .inr ⟨_, rfl, hcr, fun hhead => hcr (List.mem_of_mem_head? hhead), ?_⟩
    simp [headerText, utf8_ascii]

/-- The end of the headers is found. -/
theorem findBytes_headers (part : Part) (tail : Bytes) :
    findBytes (part.headers ++ ((crlf ++ crlf) ++ tail)) (crlf ++ crlf) =
      some part.headers.length := by
  obtain ⟨first, rest, heq, hfirst, hrest⟩ := cr_not_mem_headers part
  have hneedle : crlf ++ crlf = cr :: [lf, cr, lf] := rfl
  rw [heq, List.append_assoc, hneedle, findBytes_skip hfirst]
  rcases hrest with rfl | ⟨line, rfl, hline, hhead, hne⟩
  · rw [List.nil_append, findBytes_here]
    simp
  · obtain ⟨b, line, rfl⟩ := List.exists_cons_of_ne_nil hne
    have hb : cr ≠ b := fun h => hhead (h ▸ rfl)
    have hskip : cr ∉ lf :: b :: line := by
      rw [List.mem_cons, not_or]
      exact ⟨by decide, hline⟩
    have hnext : [cr, lf, cr, lf].isPrefixOf
        (cr :: (lf :: b :: line ++ ([cr, lf, cr, lf] ++ tail))) = false := by
      simp [List.isPrefixOf, hb]
    have hcrlf : crlf ++ b :: line ++ (cr :: [lf, cr, lf] ++ tail) =
        cr :: (lf :: b :: line ++ ([cr, lf, cr, lf] ++ tail)) := rfl
    rw [hcrlf, findBytes_next hnext, findBytes_skip hskip, findBytes_here]
    simp [crlf]

/-- A round of the loop takes a part. -/
theorem parsePart_eq (hmarker : cr ∉ marker) (hpart : part.Unseparated)
    (hbytes : ¬ (crlf ++ marker) <:+: part.bytes) (parameters : RackParameters) (count : ℕ) :
    parsePart marker parameters count (encodePart marker part ++ tail) = (do
      return (← acceptPart parameters count part, tail)) := by
  have htake : (encodePart marker part ++ tail).take 2 = crlf := rfl
  have hdrop : (encodePart marker part ++ tail).drop 2 =
      part.headers ++ ((crlf ++ crlf) ++ (part.bytes ++ ((crlf ++ marker) ++ tail))) := by
    simp [encodePart, crlf]
  have hrest : (part.headers ++ ((crlf ++ crlf) ++ (part.bytes ++ ((crlf ++ marker) ++ tail)))).drop
      (part.headers.length + 4) = part.bytes ++ ((crlf ++ marker) ++ tail) := by
    rw [← List.append_assoc]
    exact List.drop_left' (by simp [crlf])
  have hend : findBytes (part.bytes ++ ((crlf ++ marker) ++ tail)) (crlf ++ marker) =
      some part.bytes.length := by
    have hneedle : cr ∉ lf :: marker := by
      rw [List.mem_cons, not_or]
      exact ⟨by decide, hmarker⟩
    rw [← List.append_assoc]
    exact findBytes_delimiter hneedle hbytes
  have hnext : (part.bytes ++ ((crlf ++ marker) ++ tail)).drop
      (part.bytes.length + 2 + marker.length) = tail := by
    rw [← List.append_assoc]
    refine List.drop_left' ?_
    simp only [List.length_append, crlf, List.length_cons, List.length_nil]
    omega
  have hcrlf : decide (crlf ≠ crlf) = false := by decide
  rw [parsePart, htake, hdrop, hcrlf, acceptPart]
  simp only [failIf_false, ok_bind, findBytes_headers, okOr_some_bind, List.take_left, hrest,
    parseMultipartHeaders_eq hpart, hend, hnext, bind_assoc]

/-- The loop takes the parts that follow one another, and stops behind the last marker. -/
theorem parseParts_eq (hmarker : cr ∉ marker) {parts : List Part}
    (hparts : ∀ part ∈ parts, part.Unseparated)
    (hbytes : ∀ part ∈ parts, ¬ (crlf ++ marker) <:+: part.bytes) {rounds : ℕ}
    (hrounds : parts.length < rounds) (parameters : RackParameters) (count : ℕ) :
    parseParts marker rounds parameters count
        (parts.flatMap (encodePart marker) ++ (dashes ++ crlf)) =
      some (acceptParts parameters count parts) := by
  induction parts generalizing rounds parameters count with
  | nil =>
    obtain ⟨rounds, rfl⟩ := Nat.exists_eq_add_of_le' hrounds
    rfl
  | cons part parts ih =>
    obtain ⟨rounds, rfl⟩ := Nat.exists_eq_add_of_le' (Nat.one_le_of_lt hrounds)
    rw [List.length_cons] at hrounds
    have htake : (encodePart marker part ++ (parts.flatMap (encodePart marker) ++
        (dashes ++ crlf))).take 2 ≠ dashes := by
      intro h
      exact absurd h (by simp [encodePart, crlf, dashes, cr])
    rw [List.flatMap_cons, List.append_assoc, parseParts, if_neg htake,
      parsePart_eq hmarker (hparts part List.mem_cons_self) (hbytes part List.mem_cons_self),
      acceptParts]
    cases acceptPart parameters count part with
    | error e => rfl
    | ok accepted =>
      exact ih (fun p hp => hparts p (List.mem_cons_of_mem part hp))
        (fun p hp => hbytes p (List.mem_cons_of_mem part hp)) (by omega) accepted (count + 1)

/-! ### The boundary -/

theorem isBoundaryChar_not {c : Char} (h : isBoundaryChar c = true) :
    c ≠ ';' ∧ c ≠ '"' ∧ c ≠ '\r' := by
  refine ⟨?_, ?_, ?_⟩ <;> (rintro rfl; revert h; decide)

theorem isBoundaryChar_graphic {c : Char} (h : isBoundaryChar c = true) (hc : c ≠ ' ') :
    0x21 ≤ c.toNat ∧ c.toNat ≤ 0x7E := by
  rw [isBoundaryChar, Bool.or_eq_true] at h
  rcases h with h | h
  · unfold Char.isAlphanum Char.isAlpha Char.isUpper Char.isLower Char.isDigit at h
    simp only [Bool.or_eq_true, Bool.and_eq_true, decide_eq_true_eq, ge_iff_le,
      UInt32.le_iff_toNat_le] at h
    change (65 ≤ c.toNat ∧ c.toNat ≤ 90 ∨ 97 ≤ c.toNat ∧ c.toNat ≤ 122) ∨
      48 ≤ c.toNat ∧ c.toNat ≤ 57 at h
    omega
  · have hlisted : ∀ c ∈ "'()+_,-./:=? ".toList, c ≠ ' ' → 0x21 ≤ c.toNat ∧ c.toNat ≤ 0x7E := by
      decide
    exact hlisted c (List.contains_iff_mem.mp h) hc

theorem isWhitespace_graphic {c : Char} (h : 0x21 ≤ c.toNat ∧ c.toNat ≤ 0x7E) :
    isWhitespace c = false := by
  simp [isWhitespace]
  omega

theorem byteLen_ascii {text : Text} (h : ∀ c ∈ text, c.toNat < 128) : byteLen text = text.length := by
  induction text with
  | nil => rfl
  | cons c text ih =>
    have hsize : c.utf8Size = 1 := by
      rw [← String.length_utf8EncodeChar, utf8_ascii (h c List.mem_cons_self)]
      rfl
    rw [byteLen_cons, hsize, ih fun d hd => h d (List.mem_cons_of_mem c hd), List.length_cons,
      Nat.add_comm]

def boundaryName : Text := "boundary".toList

def multipartName : Text := "multipart/form-data".toList

theorem multipartContentType_eq (boundary : Boundary) (inQuotes : Bool) :
    multipartContentType boundary inQuotes =
      multipartName ++ ';' :: (' ' :: boundaryName ++ '=' ::
        if inQuotes then quoted boundary.text else boundary.text) := by
  rfl

/-- The value of the boundary, in quotes or without them. -/
theorem boundaryValue (boundary : Boundary) (hspace : ' ' ∉ boundary.text) (inQuotes : Bool) :
    ∃ value, (if inQuotes then quoted boundary.text else boundary.text) = value ∧
      ';' ∉ value ∧ trim value = value ∧ (unquoted value).getD value = boundary.text ∧
      ∀ c, value.getLast? = some c → isWhitespace c = false := by
  have hgraphic : ∀ c ∈ boundary.text, isWhitespace c = false := fun c hc =>
    isWhitespace_graphic (isBoundaryChar_graphic (boundary.chars c hc) fun h => hspace (h ▸ hc))
  have hsemicolon : ';' ∉ boundary.text := fun hc =>
    (isBoundaryChar_not (boundary.chars _ hc)).1 rfl
  refine ⟨_, rfl, ?_⟩
  cases inQuotes with
  | true =>
    refine ⟨by simp [quoted, hsemicolon], trim_quoted _, ?_, fun c h => ?_⟩
    · rw [if_pos rfl, unquoted_quoted]
      rfl
    · rw [if_pos rfl, getLast?_quoted] at h
      obtain rfl := Option.some.inj h
      decide
  | false =>
    have htrim : trim boundary.text = boundary.text :=
      trim_eq_self (fun c h => hgraphic c (List.mem_of_mem_head? h))
        fun c h => hgraphic c (List.mem_of_getLast? h)
    refine ⟨hsemicolon, htrim, ?_, fun c h => hgraphic c (List.mem_of_getLast? h)⟩
    have hquote : unquoted boundary.text = none := by
      cases htext : boundary.text with
      | nil => rfl
      | cons c text =>
        have hc : c ≠ '"' :=
          (isBoundaryChar_not (boundary.chars c (htext ▸ List.mem_cons_self))).2.1
        simp [unquoted, hc]
    rw [if_neg (by decide), hquote]
    rfl

theorem multipartBoundary_eq (boundary : Boundary) (hspace : ' ' ∉ boundary.text)
    (inQuotes : Bool) :
    multipartBoundary (multipartContentType boundary inQuotes) = some boundary.text := by
  obtain ⟨value, hvalue, hsemicolon, htrim, hunquoted, hlast⟩ :=
    boundaryValue boundary hspace inQuotes
  have hsplit : split ';' (multipartContentType boundary inQuotes) =
      [multipartName, ' ' :: boundaryName ++ '=' :: value] := by
    have hparameter : ';' ∉ ' ' :: boundaryName ++ '=' :: value := by
      rw [List.mem_append, not_or]
      refine ⟨by decide, ?_⟩
      rw [List.mem_cons, not_or]
      exact ⟨by decide, hsemicolon⟩
    rw [multipartContentType_eq, hvalue, split_append (by decide), split_single hparameter]
  have htype : contentTypeIs (multipartContentType boundary inQuotes)
      "multipart/form-data".toList = true := by
    have hname : eqIgnoreAsciiCase (trim multipartName) "multipart/form-data".toList = true := by
      decide
    rw [contentTypeIs, hsplit]
    exact hname
  have hparameter : trim (' ' :: boundaryName ++ '=' :: value) = boundaryName ++ '=' :: value := by
    rw [List.cons_append, trim_blank]
    refine trim_eq_self (fun c h => ?_) (fun c h => ?_)
    · have hhead : boundaryName.head? = some 'b' := by decide
      rw [List.head?_append, hhead] at h
      obtain rfl := Option.some.inj h
      decide
    · rw [List.getLast?_append, List.getLast?_cons] at h
      cases hvalue : value.getLast? with
      | none =>
        rw [hvalue] at h
        obtain rfl : '=' = c := by simpa using h
        decide
      | some d =>
        rw [hvalue] at h
        obtain rfl : d = c := by simpa using h
        exact hlast d hvalue
  have hname : eqIgnoreAsciiCase (trim boundaryName) "boundary".toList = true := by
    decide
  have hgraphic : ∀ c ∈ boundary.text, 0x21 ≤ c.toNat ∧ c.toNat ≤ 0x7E := fun c hc =>
    isBoundaryChar_graphic (boundary.chars c hc) fun h => hspace (h ▸ hc)
  have haccepted : (!boundary.text.isEmpty && decide (byteLen boundary.text ≤ 70) &&
      boundary.text.all fun c => isAsciiGraphic c && c != '"') = true := by
    have hlength : byteLen boundary.text ≤ 70 := by
      rw [byteLen_ascii fun c hc => by have := hgraphic c hc; omega]
      exact boundary.length_le
    simp only [Bool.and_eq_true, Bool.not_eq_true', List.isEmpty_eq_false_iff, decide_eq_true_eq,
      List.all_eq_true, bne_iff_ne, isAsciiGraphic]
    exact ⟨⟨boundary.nonempty, hlength⟩, fun c hc =>
      ⟨hgraphic c hc, (isBoundaryChar_not (boundary.chars c hc)).2.1⟩⟩
  have hparsed : boundaryOf (' ' :: boundaryName ++ '=' :: value) = some boundary.text := by
    rw [boundaryOf, hparameter, splitOnce_separator (by decide)]
    simp only [Option.bind_eq_bind, Option.bind_some, hname, htrim, hunquoted, haccepted]
    rfl
  rw [multipartBoundary, htype, hsplit]
  simp only [Bool.not_true, List.drop_succ_cons, List.drop_zero, List.findSome?_cons, hparsed]
  rfl

/-- What the parser makes of a body is what it makes of the parts. -/
theorem parseMultipartParameters_eq {boundary : Boundary} (hspace : ' ' ∉ boundary.text)
    {parts : List Part} (hparts : ∀ part ∈ parts, part.Unseparated)
    (hbytes : ∀ part ∈ parts, ¬ utf8 boundary.text <:+: part.bytes) (inQuotes : Bool) {rounds : ℕ}
    (hrounds : (encodeMultipart boundary parts).length < rounds) :
    parseMultipartParameters rounds (encodeMultipart boundary parts)
        (multipartContentType boundary inQuotes) = some (acceptParts .empty 0 parts) := by
  have hmarker : cr ∉ boundary.marker := by
    have hchars : '\r' ∉ boundary.text := fun hc =>
      (isBoundaryChar_not (boundary.chars _ hc)).2.2 rfl
    rw [Boundary.marker, List.mem_append, not_or]
    exact ⟨by decide, not_mem_utf8 hchars (by decide)⟩
  have hdelimiter : ∀ part ∈ parts, ¬ (crlf ++ boundary.marker) <:+: part.bytes := by
    intro part hpart h
    refine hbytes part hpart (List.IsInfix.trans ?_ h)
    exact ⟨crlf ++ dashes, [], by simp [Boundary.marker]⟩
  have hlength : parts.length ≤ (parts.flatMap (encodePart boundary.marker)).length := by
    clear hparts hbytes hdelimiter hrounds
    induction parts with
    | nil => exact Nat.zero_le _
    | cons part parts ih =>
      have hpart : 1 ≤ (encodePart boundary.marker part).length := by simp [encodePart, crlf]
      rw [List.flatMap_cons, List.length_append, List.length_cons]
      omega
  rw [encodeMultipart, List.length_append, List.length_append] at hrounds
  have hprefix : boundary.marker.isPrefixOf (encodeMultipart boundary parts) = true := by
    rw [List.isPrefixOf_iff_prefix]
    exact List.prefix_append _ _
  rw [parseMultipartParameters, multipartBoundary_eq boundary hspace]
  change (if boundary.marker.isPrefixOf (encodeMultipart boundary parts) = true then _ else _) = _
  rw [if_pos hprefix]
  change parseParts boundary.marker rounds .empty 0
    ((encodeMultipart boundary parts).drop boundary.marker.length) = _
  rw [encodeMultipart, List.drop_left]
  exact parseParts_eq hmarker hparts hdelimiter (by omega) .empty 0

/-! ### The limits -/

/-- No limit of the parser is reached by a part. -/
def Part.Small (part : Part) : Prop :=
  (part.name = "avatar".toList ∨ part.name = "header".toList) → part.fileName ≠ none →
    part.bytes.length < avatarBytesLimit

theorem multipartValue_upload {name : Text} (fileName : FileName) {contentType : Text} {bytes : Bytes}
    (hsmall : name = "avatar".toList ∨ name = "header".toList → bytes.length < avatarBytesLimit) :
    multipartValue name ⟨⟨some name, some fileName.text⟩, some contentType⟩ bytes =
      .ok (.upload ⟨fileName.text, contentType, bytes⟩) := by
  have hempty : fileName.text.isEmpty = false := by
    simpa using fileName.nonempty
  have hplain : (fileName.text.any fun c => c == Char.ofNat 0 || c == '\r' || c == '\n') = false := by
    rw [List.any_eq_false]
    intro c hc
    have h := fileName.plain c hc
    simp [h.2.1, h.2.2.1, h.2.2.2]
  have hsize : ((decide (name = "avatar".toList) || decide (name = "header".toList)) &&
      decide (bytes.length ≥ avatarBytesLimit)) = false := by
    rw [Bool.and_eq_false_iff, Bool.or_eq_false_iff]
    by_cases hname : name = "avatar".toList ∨ name = "header".toList
    · exact .inr (decide_eq_false (Nat.not_le.mpr (hsmall hname)))
    · rw [not_or] at hname
      exact .inl ⟨decide_eq_false hname.1, decide_eq_false hname.2⟩
  simp only [multipartValue, hempty, hplain, hsize, failIf_false, ok_bind]
  rfl

theorem multipartValue_eq {part : Part} (h : part.Small) :
    multipartValue part.name ⟨⟨some part.name, part.fileName⟩, part.contentType⟩ part.bytes =
      .ok part.value := by
  cases part with
  | field name value =>
    simp only [multipartValue, Part.fileName, Part.bytes, fromUtf8_utf8, okOr_some_bind, Part.value]
    rfl
  | file name fileName contentType bytes =>
    exact multipartValue_upload fileName fun hname => h hname nofun

theorem acceptParts_eq {parts : List Part} (hparts : ∀ part ∈ parts, part.Small)
    {count : ℕ} (hcount : count + parts.length ≤ rackParameterLimit) (parameters : RackParameters) :
    acceptParts parameters count parts = parts.foldlM insertPart parameters := by
  induction parts generalizing parameters count with
  | nil => rfl
  | cons part parts ih =>
    rw [List.length_cons] at hcount
    have hlimit : decide (count + 1 > rackParameterLimit) = false := by
      rw [decide_eq_false_iff_not]
      omega
    have hpart : acceptPart parameters count part = insertPart parameters part := by
      rw [acceptPart, insertPart, multipartValue_eq (hparts part List.mem_cons_self), hlimit]
      rfl
    rw [acceptParts, hpart, List.foldlM_cons]
    cases insertPart parameters part with
    | error e => rfl
    | ok parameters =>
      exact ih (fun p hp => hparts p (List.mem_cons_of_mem part hp)) (by omega) parameters

/-! ### The round trip -/

/-- The boundary occurs in no value. -/
def Separates (boundary : Boundary) (parts : List Part) : Prop :=
  ∀ part ∈ parts, ¬ utf8 boundary.text <:+: part.bytes

/-- The parts are read as they have been inserted. -/
def RoundTrips (boundary : Boundary) (inQuotes : Bool) (parts : List Part) : Prop :=
  ∀ rounds, (encodeMultipart boundary parts).length < rounds →
    parseMultipartParameters rounds (encodeMultipart boundary parts)
      (multipartContentType boundary inQuotes) = some (insertParts parts)

/-- CORRECT (parse_multipart_parameters): the parser terminates on all bytes, and reads what a client
    sends as it has been inserted, within its limits and where no name has a semicolon. -/
theorem multipart_round_trip :
    (∀ body contentType, ∃ result, ∀ rounds, body.length < rounds →
      parseMultipartParameters rounds body contentType = some result) ∧
    ∀ boundary : Boundary, ' ' ∉ boundary.text → ∀ inQuotes parts, Separates boundary parts →
      parts.length ≤ rackParameterLimit → (∀ part ∈ parts, part.Small) →
        (∀ part ∈ parts, part.Unseparated) → RoundTrips boundary inQuotes parts := by
  refine ⟨parseMultipartParameters_terminates, ?_⟩
  intro boundary hspace inQuotes parts hbytes hcount hsmall hparts rounds hrounds
  rw [parseMultipartParameters_eq hspace hparts hbytes inQuotes hrounds,
    acceptParts_eq hsmall (by omega), insertParts]

def sampleBoundary : Boundary where
  text := ['b']
  nonempty := by decide
  length_le := by decide
  chars := by decide
  last := by decide

def plainName : FieldName := ⟨['a'], by decide⟩

def plainFileName : FileName := ⟨['é', '='], by decide, by decide⟩

def plainType : MediaType := ⟨['t', '/', 't'], by decide, by decide⟩

theorem multipart_round_trip_sample :
    RoundTrips sampleBoundary true
      [.field ⟨['a', '=', '[', ']'], by decide⟩ ['v'],
        .file plainName plainFileName plainType [0, 13, 10, 45]] :=
  multipart_round_trip.2 sampleBoundary (by decide) true
    [.field ⟨['a', '=', '[', ']'], by decide⟩ ['v'],
      .file plainName plainFileName plainType [0, 13, 10, 45]]
    (by unfold Separates; decide) (by decide) (by unfold Part.Small; decide)
    (by unfold Part.Unseparated; decide)

/-! ### What is refused -/

def isError : Option (Request RackParameters) → Bool
  | some (.error _) => true
  | _ => false

theorem not_roundTrips {boundary : Boundary} {inQuotes : Bool} {parts : List Part}
    (hparsed : isError (parseMultipartParameters ((encodeMultipart boundary parts).length + 1)
      (encodeMultipart boundary parts) (multipartContentType boundary inQuotes)) = true)
    (hinserted : isError (some (insertParts parts)) = false) :
    ¬ RoundTrips boundary inQuotes parts := by
  intro h
  rw [h _ (Nat.lt_succ_self _), hinserted] at hparsed
  cases hparsed

/-- The parameters beyond the limit are not taken. -/
theorem acceptParts_limit {parts : List Part} {count : ℕ} (hcount : count ≤ rackParameterLimit)
    (h : rackParameterLimit < count + parts.length) (parameters : RackParameters) :
    isError (some (acceptParts parameters count parts)) = true := by
  induction parts generalizing parameters count with
  | nil =>
    rw [List.length_nil] at h
    omega
  | cons part parts ih =>
    rw [List.length_cons] at h
    rw [acceptParts]
    cases hpart : acceptPart parameters count part with
    | error e => rfl
    | ok accepted =>
      obtain ⟨key, -, hpart⟩ := bind_eq_ok hpart
      obtain ⟨root, -, hpart⟩ := bind_eq_ok hpart
      obtain ⟨value, -, hpart⟩ := bind_eq_ok hpart
      obtain ⟨_, hlimit, -⟩ := bind_eq_ok hpart
      have hlimit := of_decide_eq_false (failIf_eq_ok hlimit)
      exact ih (by omega) (by omega) accepted

theorem insertPart_plain (parameters : RackParameters) (value : Text) :
    insertPart parameters (.field plainName value) =
      .ok ⟨parameters.values.insert ['a'] (.scalar value)⟩ := rfl

theorem insertParts_plain (count : ℕ) (parameters : RackParameters) :
    isError (some ((List.replicate count (Part.field plainName [])).foldlM insertPart parameters)) =
      false := by
  induction count generalizing parameters with
  | zero => rfl
  | succ count ih =>
    rw [List.replicate_succ, List.foldlM_cons, insertPart_plain]
    exact ih _

theorem separates_of_not_mem {boundary : Boundary} {parts : List Part} {byte : UInt8}
    (hbyte : byte ∈ utf8 boundary.text) (h : ∀ part ∈ parts, byte ∉ part.bytes) :
    Separates boundary parts :=
  fun part hpart hocc => h part hpart (hocc.subset hbyte)

def avatarName : FieldName := ⟨"avatar".toList, by decide⟩

def avatarPart (bytes : Bytes) : Part := .file avatarName plainFileName plainType bytes

theorem acceptParts_avatar {bytes : Bytes} (h : avatarBytesLimit ≤ bytes.length) :
    isError (some (acceptParts .empty 0 [avatarPart bytes])) = true := by
  have hsize : decide (bytes.length ≥ avatarBytesLimit) = true := decide_eq_true h
  have hvalue : multipartValue avatarName.text ⟨⟨some avatarName.text, some plainFileName.text⟩,
      some plainType.text⟩ bytes = .error .badRequest := by
    rw [multipartValue, hsize]
    rfl
  have hpart : acceptPart .empty 0 (avatarPart bytes) = .error .badRequest := by
    have hkey : rackKey avatarName.text = .ok (some (avatarName.text, [])) := rfl
    rw [acceptPart, avatarPart, Part.name, hkey, Part.fileName, Part.contentType, Part.bytes, hvalue]
    rfl
  rw [acceptParts, hpart]
  rfl

theorem avatar_not_roundTrips {bytes : Bytes} (h : avatarBytesLimit ≤ bytes.length)
    (hbytes : Separates sampleBoundary [avatarPart bytes]) :
    ¬ RoundTrips sampleBoundary false [avatarPart bytes] := by
  refine not_roundTrips ?_ rfl
  have hplain : ∀ part ∈ [avatarPart bytes], part.Unseparated := by
    intro part hpart
    obtain rfl := List.mem_singleton.mp hpart
    refine ⟨show ';' ∉ avatarName.text by decide, fun fileName hfile => ?_⟩
    obtain rfl := Option.some.inj hfile
    decide
  rw [parseMultipartParameters_eq (by decide) hplain hbytes false (Nat.lt_succ_self _)]
  exact acceptParts_avatar h

theorem plain_not_roundTrips {count : ℕ} (h : rackParameterLimit < count)
    (hbytes : Separates sampleBoundary (List.replicate count (.field plainName []))) :
    ¬ RoundTrips sampleBoundary false (List.replicate count (.field plainName [])) := by
  refine not_roundTrips ?_ (insertParts_plain count .empty)
  have hplain : ∀ part ∈ List.replicate count (Part.field plainName []), part.Unseparated := by
    intro part hpart
    obtain rfl := List.eq_of_mem_replicate hpart
    unfold Part.Unseparated
    decide
  rw [parseMultipartParameters_eq (by decide) hplain hbytes false (Nat.lt_succ_self _)]
  refine acceptParts_limit (Nat.zero_le _) ?_ .empty
  rwa [List.length_replicate, Nat.zero_add]

/-- A semicolon in a name, a blank in the boundary, a large avatar and too many fields are refused. -/
theorem multipart_refused :
    (Separates sampleBoundary [.field ⟨[';'], by decide⟩ []] ∧
      ¬ RoundTrips sampleBoundary false [.field ⟨[';'], by decide⟩ []]) ∧
    (Separates sampleBoundary [.file plainName ⟨[';'], by decide, by decide⟩ plainType []] ∧
      ¬ RoundTrips sampleBoundary false
        [.file plainName ⟨[';'], by decide, by decide⟩ plainType []]) ∧
    (∃ boundary : Boundary, ¬ RoundTrips boundary true []) ∧
    (Separates sampleBoundary [avatarPart (List.replicate avatarBytesLimit 0)] ∧
      ¬ RoundTrips sampleBoundary false [avatarPart (List.replicate avatarBytesLimit 0)]) ∧
    (Separates sampleBoundary (List.replicate 4097 (.field plainName [])) ∧
      ¬ RoundTrips sampleBoundary false (List.replicate 4097 (.field plainName []))) := by
  have hfield : Separates sampleBoundary [.field ⟨[';'], by decide⟩ []] := by
    unfold Separates
    decide
  have hfile : Separates sampleBoundary
      [.file plainName ⟨[';'], by decide, by decide⟩ plainType []] := by
    unfold Separates
    decide
  have havatar : Separates sampleBoundary [avatarPart (List.replicate avatarBytesLimit 0)] := by
    refine separates_of_not_mem (show (98 : UInt8) ∈ _ by decide) fun part hpart hmem => ?_
    obtain rfl := List.mem_singleton.mp hpart
    exact absurd (List.eq_of_mem_replicate hmem) (by decide)
  have hmany : Separates sampleBoundary (List.replicate 4097 (.field plainName [])) := by
    intro part hpart
    obtain rfl := List.eq_of_mem_replicate hpart
    decide
  have hlimit : rackParameterLimit < 4097 := by decide
  exact ⟨⟨hfield, not_roundTrips (by decide) (by decide)⟩,
    ⟨hfile, not_roundTrips (by decide) (by decide)⟩,
    ⟨⟨['b', ' ', 'b'], by decide, by decide, by decide, by decide⟩,
      not_roundTrips (by decide) (by decide)⟩,
    ⟨havatar, avatar_not_roundTrips (by rw [List.length_replicate]) havatar⟩,
    ⟨hmany, plain_not_roundTrips hlimit hmany⟩⟩

end Rustodon.Web
