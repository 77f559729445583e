import Rustodon.Media.Paperclip

/-! @src paperclip.rs | name:Round trip of Paperclip paths | scheme:round-trip | family:media

    A stored file is found under its encoded path, and a request path that is read names one
    attachment and one id, and stays below the root. -/

namespace Rustodon.Media
open Schemes.Utf8 Schemes.Bytes Schemes.Percent

/-! ### Components -/

theorem not_mem_of_safeComponent {value : Text} (h : safeComponent value = true) : '/' ∉ value := by
  intro hmem
  have hany : (value.any fun c => c == '/' || c == '\\' || c == '\x00') = true :=
    List.any_eq_true.mpr ⟨'/', hmem, rfl⟩
  simp [safeComponent, hany] at h

theorem ne_nil_of_safeComponent {value : Text} (h : safeComponent value = true) : value ≠ [] := by
  rintro rfl
  cases h

theorem splitOn_join {components : List Text} (hne : components ≠ [])
    (h : ∀ component ∈ components, '/' ∉ component) : (join components).splitOn '/' = components :=
  List.splitOn_intercalate '/' h hne

theorem join_cons {component : Text} {components : List Text} (hne : components ≠ []) :
    join (component :: components) = component ++ '/' :: join components := by
  obtain ⟨second, rest, rfl⟩ := List.exists_cons_of_ne_nil hne
  simp [join, List.intercalate]

theorem join_append {before after : List Text} (hbefore : before ≠ []) (hafter : after ≠ []) :
    join (before ++ after) = join before ++ '/' :: join after := by
  induction before with
  | nil => exact absurd rfl hbefore
  | cons component before ih =>
    rw [List.cons_append, join_cons (by simp [hafter])]
    cases before with
    | nil => simp [join]
    | cons second before =>
      rw [ih (List.cons_ne_nil _ _), join_cons (List.cons_ne_nil _ _)]
      simp

/-! ### Percent signs -/

theorem isPathByte_percent : isPathByte percent = false := by decide

theorem ascii_of_mem_encode {bytes : Bytes} {b : UInt8} (h : b ∈ encode isPathByte bytes) :
    b.toNat < 128 ∧ b.toNat ≠ 47 := by
  rcases mem_encode h with hplain | rfl | ⟨n, hn, rfl⟩
  · rw [isPathByte, Bool.or_eq_true] at hplain
    rcases hplain with halphanum | hpunctuation
    · rw [Bool.and_eq_true, decide_eq_true_iff] at halphanum
      refine ⟨halphanum.1, fun hslash => ?_⟩
      rw [hslash] at halphanum
      exact absurd halphanum.2 (by decide)
    · rw [List.contains_iff_mem] at hpunctuation
      simp only [List.mem_cons, List.not_mem_nil, or_false] at hpunctuation
      omega
  · decide
  · have hall : ∀ n < 16, (hexDigit n).toNat < 128 ∧ (hexDigit n).toNat ≠ 47 := by decide
    exact hall n hn

theorem toNat_ofAscii {n : ℕ} (h : n < 128) : (Char.ofNat n).toNat = n := by
  have hall : ∀ n < 128, (Char.ofNat n).toNat = n := by decide
  exact hall n h

theorem utf8_ofAscii {bytes : Bytes} (h : ∀ b ∈ bytes, b.toNat < 128) :
    utf8 (bytes.map fun b => Char.ofNat b.toNat) = bytes := by
  induction bytes with
  | nil => rfl
  | cons b bytes ih =>
    obtain ⟨hb, hbytes⟩ := List.forall_mem_cons.mp h
    have hchar : (Char.ofNat b.toNat).toNat = b.toNat := toNat_ofAscii hb
    rw [List.map_cons, utf8_cons, utf8_ascii (by rw [hchar]; exact hb), hchar, ih hbytes,
      UInt8.ofNat_toNat, List.singleton_append]

theorem utf8_encodeComponent (component : Text) :
    utf8 (encodeComponent component) = encode isPathByte (utf8 component) :=
  utf8_ofAscii fun _ hb => (ascii_of_mem_encode hb).1

theorem not_mem_encodeComponent (component : Text) : '/' ∉ encodeComponent component := by
  intro hmem
  obtain ⟨b, hb, hslash⟩ := List.mem_map.mp hmem
  obtain ⟨hascii, hne⟩ := ascii_of_mem_encode hb
  have hchar : (Char.ofNat b.toNat).toNat = b.toNat := toNat_ofAscii hascii
  rw [hslash] at hchar
  exact hne hchar.symm

theorem encodeComponent_ne_nil {component : Text} (h : component ≠ []) :
    encodeComponent component ≠ [] := by
  intro hnil
  have hutf8 := utf8_encodeComponent component
  have hdecode := decode_encode isPathByte_percent (utf8 component)
  rw [← hutf8, hnil] at hdecode
  have hround := fromUtf8_utf8 component
  rw [← hdecode] at hround
  exact h (Option.some.inj hround).symm

theorem decodeComponent_encodeComponent {component : Text} (h : safeComponent component = true) :
    decodeComponent (encodeComponent component) = some component := by
  have hne := encodeComponent_ne_nil (ne_nil_of_safeComponent h)
  rw [decodeComponent, if_neg (by simpa using hne), utf8_encodeComponent,
    decode_encode isPathByte_percent, fromUtf8_utf8, Option.filter_some, if_pos h]

theorem validPercentEncoding_cons {b : UInt8} (h : b ≠ percent) (rest : Bytes) :
    validPercentEncoding (b :: rest) = validPercentEncoding rest := by
  match rest with
  | [] => exact if_neg h
  | [_] => exact if_neg h
  | _ :: _ :: _ => exact if_neg h

theorem validPercentEncoding_encode (bytes rest : Bytes) :
    validPercentEncoding (encode isPathByte bytes ++ rest) = validPercentEncoding rest := by
  induction bytes with
  | nil => rfl
  | cons b bytes ih =>
    have hb := b.toNat_lt
    rw [encode, List.flatMap_cons, ← encode, List.append_assoc, encodeByte]
    split_ifs with hplain
    · have hne : b ≠ percent := by
        rintro rfl
        rw [isPathByte_percent] at hplain
        cases hplain
      exact (validPercentEncoding_cons hne _).trans ih
    · have hhigh : b.toNat / 16 < 16 := by omega
      have hlow : b.toNat % 16 < 16 := by omega
      simp only [List.cons_append, List.nil_append]
      rw [validPercentEncoding, if_pos rfl]
      simp only [hexValue_hexDigit hhigh, hexValue_hexDigit hlow, ih]
      rfl

theorem validPercentEncoding_join (components : List Text) :
    validPercentEncoding (utf8 (join (components.map encodeComponent))) = true := by
  induction components with
  | nil => rfl
  | cons component components ih =>
    cases components with
    | nil =>
      have h := validPercentEncoding_encode (utf8 component) []
      rw [List.append_nil] at h
      have hjoin : join ([component].map encodeComponent) = encodeComponent component := by
        simp [join]
      rw [hjoin, utf8_encodeComponent, h]
      rfl
    | cons second components =>
      rw [List.map_cons, join_cons (by simp), utf8_append, utf8_encodeComponent,
        validPercentEncoding_encode, utf8_cons]
      have hslash : String.utf8EncodeChar '/' = [47] := by decide
      rw [hslash, List.singleton_append, validPercentEncoding_cons (by decide)]
      exact ih

/-! ### Partitions -/

theorem chunksExact_spec (digits : Text) (hlength : digits.length % 3 = 0) :
    (chunksExact digits).flatten = digits ∧ 3 * (chunksExact digits).length = digits.length ∧
      ∀ part ∈ chunksExact digits, part.length = 3 := by
  induction digits using chunksExact.induct with
  | case1 a b c rest ih =>
    simp only [List.length_cons] at hlength
    obtain ⟨hflatten, hcount, hparts⟩ := ih (by omega)
    rw [chunksExact]
    refine ⟨?_, ?_, ?_⟩
    · simp [hflatten]
    · simp only [List.length_cons]
      omega
    · exact List.forall_mem_cons.mpr ⟨rfl, hparts⟩
  | case2 digits hshort =>
    match digits with
    | [] => exact ⟨rfl, rfl, nofun⟩
    | [_] => simp at hlength
    | [_, _] => simp at hlength
    | a :: b :: c :: rest => exact absurd rfl (hshort a b c rest)

theorem partitionWidth_spec {digits width : ℕ} (h : partitionWidth digits = some width) :
    9 ≤ width ∧ width % 3 = 0 ∧ digits ≤ width := by
  rw [partitionWidth] at h
  split_ifs at h with hnine htwelve hthree
  all_goals
    obtain rfl := Option.some.inj h
    omega

theorem byteLen_digits {part : Text} (h : part.all Char.isDigit = true) :
    byteLen part = part.length := by
  induction part with
  | nil => rfl
  | cons c part ih =>
    rw [List.all_cons, Bool.and_eq_true] at h
    have hsize : c.utf8Size = 1 := by
      have hdigit := h.1
      simp only [Char.isDigit, Bool.and_eq_true, decide_eq_true_iff] at hdigit
      have hhigh : c.val.toNat ≤ 57 := UInt32.le_iff_toNat_le.mp hdigit.2
      rw [Char.utf8Size_eq_one_iff, UInt32.le_iff_toNat_le]
      exact hhigh.trans (by decide)
    rw [byteLen_cons, hsize, ih h.2, List.length_cons]
    omega

theorem parseDigits_toDigits {id : Int64} (h : 0 < id.toInt) {digits : Text}
    (hdigits : Nat.ofDigitChars 10 digits 0 = id.toInt.toNat) : parseDigits digits = some id := by
  have hlt := id.toInt_lt
  have hsmall : id.toInt.toNat < 2 ^ 63 := by omega
  rw [parseDigits, hdigits]
  simp only [hsmall, if_true, Option.some.injEq]
  rw [← Int64.ofInt_eq_ofNat, Int.toNat_of_nonneg (by omega), Int64.ofInt_toInt]

/-- The pieces of a partitioned id, which are read as the id. -/
theorem partitionedId_spec {id : Int64} {partition : Text} (h : partitionedId id = some partition) :
    ∃ parts, partition = join parts ∧ 3 ≤ parts.length ∧
      (∀ part ∈ parts, isPartition part = true) ∧ parseDigits parts.flatten = some id := by
  rw [partitionedId] at h
  split_ifs at h with hid
  obtain ⟨width, hwidth, rfl⟩ := Option.map_eq_some_iff.mp h
  obtain ⟨hnine, hthree, hle⟩ := partitionWidth_spec hwidth
  generalize hdigits : Nat.toDigits 10 id.toInt.toNat = digits at hwidth hle
  have hlength : (digits.leftpad width '0').length = width := by
    rw [List.leftpad, List.length_append, List.length_replicate]
    omega
  have hall : (digits.leftpad width '0').all Char.isDigit = true := by
    rw [List.all_eq_true]
    intro c hc
    rw [List.leftpad, List.mem_append] at hc
    rcases hc with hc | hc
    · rw [List.eq_of_mem_replicate hc]
      rfl
    · rw [← hdigits] at hc
      exact Nat.isDigit_of_mem_toDigits (by omega) (by omega) hc
  obtain ⟨hflatten, hcount, hparts⟩ := chunksExact_spec (digits.leftpad width '0') (by omega)
  refine ⟨_, rfl, by omega, ?_, ?_⟩
  · intro part hpart
    have hdigit : part.all Char.isDigit = true := by
      rw [List.all_eq_true] at hall ⊢
      intro c hc
      refine hall c ?_
      rw [← hflatten]
      exact List.mem_flatten_of_mem hpart hc
    rw [isPartition, hdigit, byteLen_digits hdigit, hparts part hpart]
    rfl
  · refine parseDigits_toDigits (by omega) ?_
    rw [hflatten, List.leftpad, Nat.ofDigitChars_append, Nat.ofDigitChars_replicate_zero,
      Nat.mul_zero, ← hdigits, Nat.ofDigitChars_ten_toDigits]

theorem not_mem_of_isPartition {part : Text} (h : isPartition part = true) : '/' ∉ part := by
  rw [isPartition, Bool.and_eq_true, List.all_eq_true] at h
  intro hmem
  have hslash := h.2 '/' hmem
  cases hslash

/-! ### Names -/

theorem mem_of_rsplitOnce {c : Char} {s before after : Text}
    (h : rsplitOnce c s = some (before, after)) : s = before ++ c :: after := by
  obtain ⟨⟨after', before'⟩, hsplit, heq⟩ := Option.map_eq_some_iff.mp h
  obtain ⟨rfl, rfl⟩ := Prod.mk.inj heq
  have hreverse := splitOnce_eq_some hsplit
  have hs := congrArg List.reverse hreverse
  simpa using hs

theorem rsplitOnce_append {c : Char} {after : Text} (h : c ∉ after) (before : Text) :
    rsplitOnce c (before ++ c :: after) = some (before, after) := by
  have hreverse : (before ++ c :: after).reverse = after.reverse ++ c :: before.reverse := by simp
  rw [rsplitOnce, hreverse, splitOnce_separator (by simpa using h)]
  simp

theorem safeComponent_iff {value : Text} : safeComponent value = true ↔
    value ≠ [] ∧ value ≠ ['.'] ∧ value ≠ ['.', '.'] ∧
      ∀ c ∈ value, c ≠ '/' ∧ c ≠ '\\' ∧ c ≠ '\x00' ∧ isControl c = false := by
  have hchars : (!value.any (fun c => c == '/' || c == '\\' || c == '\x00') &&
      !value.any isControl) = true ↔
        ∀ c ∈ value, c ≠ '/' ∧ c ≠ '\\' ∧ c ≠ '\x00' ∧ isControl c = false := by
    simp only [Bool.and_eq_true, Bool.not_eq_true', List.any_eq_false, ← forall_and]
    refine forall_congr' fun c => ?_
    simp only [Bool.or_eq_true, beq_iff_eq, not_or, Bool.not_eq_true, and_assoc]
  rw [safeComponent, Bool.and_assoc, Bool.and_eq_true, hchars]
  simp [and_assoc]

/-- A name keeps its characters up to the last dot. -/
theorem mem_of_mem_derivativeBase {fileName : Text} {c : Char} (h : c ∈ derivativeBase fileName) :
    c ∈ fileName := by
  rw [derivativeBase] at h
  split at h
  · rename_i base after hsplit
    split_ifs at h
    · exact h
    · rw [mem_of_rsplitOnce hsplit]
      exact List.mem_append_left _ h
  · exact h

theorem safeComponent_derivativeFileName {fileName ext derived : Text}
    (hsafe : safeComponent fileName = true)
    (hext : 2 ≤ ext.length ∧ ∀ c ∈ ext, c ≠ '/' ∧ c ≠ '\\' ∧ c ≠ '\x00' ∧ isControl c = false)
    (h : derivativeFileName fileName ext = some derived) : safeComponent derived = true := by
  rw [derivativeFileName] at h
  split_ifs at h with hempty
  obtain rfl := Option.some.inj h
  obtain ⟨-, -, -, hchars⟩ := safeComponent_iff.mp hsafe
  obtain ⟨hlength, hext⟩ := hext
  rw [safeComponent_iff]
  refine ⟨by simp, ?_, ?_, ?_⟩
  · intro heq
    have hcount := congrArg List.length heq
    simp only [List.length_append, List.length_cons, List.length_nil] at hcount
    omega
  · intro heq
    have hcount := congrArg List.length heq
    simp only [List.length_append, List.length_cons, List.length_nil] at hcount
    omega
  · intro c hc
    rcases List.mem_append.mp hc with hbase | hrest
    · exact hchars c (mem_of_mem_derivativeBase hbase)
    · rcases List.mem_cons.mp hrest with rfl | hc
      · decide
      · exact hext c hc

/-! ### Styles -/

theorem permits_original (attachment : PaperclipAttachment) :
    attachmentPermitsStyle attachment original = true := by
  cases attachment <;> simp [attachmentPermitsStyle]

/-- Every permitted style is made of the characters of styles. -/
theorem isStyleChar_of_permits {attachment : PaperclipAttachment} {style : Text}
    (h : attachmentPermitsStyle attachment style = true) : style.all isStyleChar = true := by
  have hall : ∀ style ∈ original :: static :: small :: mascot ::
      (appIconStyles ++ faviconStyles ++ thumbnailStyles), style.all isStyleChar = true := by
    decide
  refine hall style ?_
  simp only [List.mem_cons, List.mem_append]
  cases attachment with
  | siteUploadFile =>
    simp only [attachmentPermitsStyle, Bool.or_eq_true, decide_eq_true_iff,
      List.contains_iff_mem] at h
    tauto
  | _ =>
    simp only [attachmentPermitsStyle, Bool.or_eq_true, decide_eq_true_iff] at h
    tauto

theorem siteUploadFileName_spec {m : PaperclipMetadata} {style fileName : Text} {png : Option Text}
    (h : m.siteUploadFileName style png = some fileName) :
    attachmentPermitsStyle .siteUploadFile style = true ∧
      (png = some fileName ∨ m.fileName = fileName) := by
  rw [PaperclipMetadata.siteUploadFileName] at h
  obtain ⟨variant, -, h⟩ := Option.bind_eq_some_iff.mp h
  have hpermits (hstyle : style ∈ appIconStyles ∨ style ∈ faviconStyles ∨ style ∈ thumbnailStyles ∨
      style = mascot) : attachmentPermitsStyle .siteUploadFile style = true := by
    simp only [attachmentPermitsStyle, Bool.or_eq_true, decide_eq_true_iff, List.contains_iff_mem]
    tauto
  split_ifs at h with _ happ _ hfavicon _ hthumbnail _ hmascot
  · exact ⟨hpermits (.inl (List.contains_iff_mem.mp happ)), .inl h⟩
  · exact ⟨hpermits (.inr (.inl (List.contains_iff_mem.mp hfavicon))), .inl h⟩
  · exact ⟨hpermits (.inr (.inr (.inl (List.contains_iff_mem.mp hthumbnail)))), .inl h⟩
  · exact ⟨hpermits (.inr (.inr (.inr hmascot))), .inr (Option.some.inj h)⟩

/-- A file that has a name for a style: the style is permitted and the name is safe. -/
theorem styleFileName_spec {m : PaperclipMetadata} {style fileName : Text}
    (h : m.styleFileName style = some fileName) :
    attachmentPermitsStyle m.attachment style = true ∧ safeComponent fileName = true := by
  have hpng : 2 ≤ "png".toList.length ∧
      ∀ c ∈ "png".toList, c ≠ '/' ∧ c ≠ '\\' ∧ c ≠ '\x00' ∧ isControl c = false := by
    decide
  have hjpeg : 2 ≤ "jpeg".toList.length ∧
      ∀ c ∈ "jpeg".toList, c ≠ '/' ∧ c ≠ '\\' ∧ c ≠ '\x00' ∧ isControl c = false := by
    decide
  rw [PaperclipMetadata.styleFileName] at h
  split at h
  · cases h
  rename_i hunsafe
  have hsafe : safeComponent m.fileName = true := by simpa using hunsafe
  have hderived {derived : Text} (h : derivativeFileName m.fileName "png".toList = some derived) :
      safeComponent derived = true := safeComponent_derivativeFileName hsafe hpng h
  by_cases horiginal : style = original
  · rw [if_pos horiginal] at h
    obtain rfl := Option.some.inj h
    exact ⟨horiginal ▸ permits_original _, hsafe⟩
  rw [if_neg horiginal] at h
  generalize hattachment : m.attachment = attachment at h ⊢
  cases attachment with
  | accountAvatar =>
    simp only at h
    split_ifs at h with hstatic
    exact ⟨by simp [attachmentPermitsStyle, hstatic.1], hderived h⟩
  | accountHeader =>
    simp only at h
    split_ifs at h with hstatic
    exact ⟨by simp [attachmentPermitsStyle, hstatic.1], hderived h⟩
  | customEmojiImage =>
    simp only at h
    split_ifs at h with hstatic
    exact ⟨by simp [attachmentPermitsStyle, hstatic], hderived h⟩
  | previewCardProviderIcon =>
    simp only at h
    split_ifs at h with hstatic
    exact ⟨by simp [attachmentPermitsStyle, hstatic], hderived h⟩
  | mediaFile =>
    simp only at h
    split_ifs at h with hsmall
    refine ⟨by simp [attachmentPermitsStyle, hsmall], ?_⟩
    obtain ⟨contentType, -, h⟩ := Option.bind_eq_some_iff.mp h
    split_ifs at h
    · obtain rfl := Option.some.inj h
      exact hsafe
    · exact hderived h
    · exact safeComponent_derivativeFileName hsafe hjpeg h
  | siteUploadFile =>
    obtain ⟨hpermits, hpng | rfl⟩ := siteUploadFileName_spec h
    · exact ⟨hpermits, hderived hpng⟩
    · exact ⟨hpermits, hsafe⟩
  | mediaThumbnail => cases h
  | previewCardImage => cases h

/-! ### The components of a path -/

namespace PaperclipAttachment

def topFolder : PaperclipAttachment → Text
  | accountAvatar | accountHeader => "accounts".toList
  | mediaFile | mediaThumbnail => "media_attachments".toList
  | customEmojiImage => "custom_emojis".toList
  | previewCardImage => "preview_cards".toList
  | previewCardProviderIcon => "preview_card_providers".toList
  | siteUploadFile => "site_uploads".toList

def folder : PaperclipAttachment → Text
  | accountAvatar => "avatars".toList
  | accountHeader => "headers".toList
  | mediaFile | siteUploadFile => "files".toList
  | mediaThumbnail => "thumbnails".toList
  | customEmojiImage | previewCardImage => "images".toList
  | previewCardProviderIcon => "icons".toList

theorem path_eq (attachment : PaperclipAttachment) :
    attachment.path = attachment.topFolder ++ '/' :: attachment.folder := by
  cases attachment <;> decide

theorem folders_spec (attachment : PaperclipAttachment) : attachment.topFolder ≠ "cache".toList ∧
    safeComponent attachment.topFolder = true ∧ safeComponent attachment.folder = true := by
  cases attachment <;> decide

theorem path_injective {attachment attachment' : PaperclipAttachment}
    (h : attachment.path = attachment'.path) : attachment = attachment' := by
  have hall : ∀ a ∈ all, ∀ a' ∈ all, a.path = a'.path → a = a' := by decide
  exact hall _ (by cases attachment <;> decide) _ (by cases attachment' <;> decide) h

end PaperclipAttachment

theorem attachmentForPath_path (attachment : PaperclipAttachment) :
    attachmentForPath attachment.path = some attachment := by
  cases attachment <;> decide

theorem path_of_attachmentForPath {path : Text} {attachment : PaperclipAttachment}
    (h : attachmentForPath path = some attachment) : attachment.path = path := by
  have hfound := List.find?_some h
  simpa using hfound

def cacheParts (cached : Bool) : List Text := if cached then ["cache".toList] else []

/-- The components of a stored file. -/
def layout (cached : Bool) (attachment : PaperclipAttachment) (parts : List Text)
    (style fileName : Text) : List Text :=
  cacheParts cached ++ attachment.topFolder :: attachment.folder :: (parts ++ [style, fileName])

/-- What a path that is read or written is made of. -/
structure IsLayout (cached : Bool) (attachment : PaperclipAttachment) (id : Int64)
    (parts : List Text) (style fileName : Text) : Prop where
  cache : cached = true → attachment.permitsCache = true
  partition : partitionedId id = some (join parts)
  length : 3 ≤ parts.length
  parts : ∀ part ∈ parts, isPartition part = true
  style : attachmentPermitsStyle attachment style = true
  fileName : safeComponent fileName = true

/-- Text of letters, digits and the signs of styles is a component. -/
theorem safeComponent_of_isStyleChar {value : Text} (hne : value ≠ [])
    (h : value.all isStyleChar = true) : safeComponent value = true := by
  rw [List.all_eq_true] at h
  have hspecial : isStyleChar '.' = false ∧ isStyleChar '/' = false ∧ isStyleChar '\\' = false ∧
      isStyleChar '\x00' = false := by decide
  have hnot {c d : Char} (hc : isStyleChar c = true) (hd : isStyleChar d = false) : c ≠ d := by
    rintro rfl
    rw [hc] at hd
    cases hd
  refine safeComponent_iff.mpr ⟨hne, ?_, ?_, fun c hc => ⟨?_, ?_, ?_, ?_⟩⟩
  · rintro rfl
    exact hnot (h '.' (by simp)) hspecial.1 rfl
  · rintro rfl
    exact hnot (h '.' (by simp)) hspecial.1 rfl
  · exact hnot (h c hc) hspecial.2.1
  · exact hnot (h c hc) hspecial.2.2.1
  · exact hnot (h c hc) hspecial.2.2.2
  · have hchar := h c hc
    by_contra hcontrol
    rw [Bool.not_eq_false, isControl, Bool.or_eq_true, decide_eq_true_iff,
      decide_eq_true_iff] at hcontrol
    have hascii : c.toNat < 32 ∨ c.toNat < 160 ∧ 127 ≤ c.toNat := by omega
    have hall : ∀ n < 160, n < 32 ∨ 127 ≤ n → isStyleChar (Char.ofNat n) = false := by
      decide +kernel
    have hfalse := hall c.toNat (by omega) (by omega)
    rw [Char.ofNat_toNat, hchar] at hfalse
    cases hfalse

theorem safeComponent_of_isPartition {part : Text} (h : isPartition part = true) :
    safeComponent part = true := by
  rw [isPartition, Bool.and_eq_true, decide_eq_true_iff, List.all_eq_true] at h
  refine safeComponent_of_isStyleChar ?_ ?_
  · rintro rfl
    exact absurd h.1 (by decide)
  · rw [List.all_eq_true]
    intro c hc
    simp [isStyleChar, Char.isAlphanum, h.2 c hc]

theorem safeComponent_of_permits {attachment : PaperclipAttachment} {style : Text}
    (h : attachmentPermitsStyle attachment style = true) : safeComponent style = true := by
  refine safeComponent_of_isStyleChar ?_ (isStyleChar_of_permits h)
  rintro rfl
  have hnone : attachmentPermitsStyle attachment [] = false := by cases attachment <;> decide
  rw [hnone] at h
  cases h

theorem IsLayout.safe {cached : Bool} {attachment : PaperclipAttachment} {id : Int64}
    {parts : List Text} {style fileName : Text}
    (h : IsLayout cached attachment id parts style fileName) :
    ∀ component ∈ layout cached attachment parts style fileName, safeComponent component = true := by
  obtain ⟨-, htop, hfolder⟩ := attachment.folders_spec
  intro component hmem
  rcases List.mem_append.mp hmem with hcache | hrest
  · cases cached with
    | false => cases hcache
    | true =>
      obtain rfl := List.mem_singleton.mp hcache
      decide
  · simp only [List.mem_cons, List.mem_append, List.not_mem_nil, or_false] at hrest
    rcases hrest with rfl | rfl | hpart | rfl | rfl
    · exact htop
    · exact hfolder
    · exact safeComponent_of_isPartition (h.parts component hpart)
    · exact safeComponent_of_permits h.style
    · exact h.fileName

theorem relativePath_layout {m : PaperclipMetadata} {style path : Text}
    (h : m.relativePath style = some path) : ∃ parts fileName,
      path = join (layout m.cachePrefix m.attachment parts style fileName) ∧
        IsLayout m.cachePrefix m.attachment m.id parts style fileName := by
  obtain ⟨partition, hpartition, h⟩ := Option.bind_eq_some_iff.mp h
  obtain ⟨fileName, hfileName, h⟩ := Option.bind_eq_some_iff.mp h
  obtain rfl := Option.some.inj h
  obtain ⟨parts, rfl, hlength, hparts, hid⟩ := partitionedId_spec hpartition
  obtain ⟨hstyle, hsafe⟩ := styleFileName_spec hfileName
  refine ⟨parts, fileName, ?_, ?_, hpartition, hlength, hparts, hstyle, hsafe⟩
  · have hne : parts ≠ [] := by
      rintro rfl
      simp at hlength
    have hrest : join (m.attachment.topFolder :: m.attachment.folder :: (parts ++ [style, fileName])) =
        m.attachment.path ++ '/' :: join parts ++ '/' :: style ++ '/' :: fileName := by
      rw [join_cons (List.cons_ne_nil _ _), join_cons (by simp), join_append hne (by simp),
        join_cons (by simp), m.attachment.path_eq]
      simp [join]
    cases hcached : m.cachePrefix with
    | false =>
      rw [layout, cacheParts]
      simp only [Bool.false_eq_true, if_false, List.nil_append]
      rw [hrest]
    | true =>
      have hcache : "cache/".toList = "cache".toList ++ ['/'] := by decide
      rw [layout, cacheParts]
      simp only [if_true]
      rw [List.singleton_append, join_cons (List.cons_ne_nil _ _), hrest, hcache]
      simp
  · intro hcached
    rw [PaperclipMetadata.cachePrefix, Bool.and_eq_true, Bool.and_eq_true] at hcached
    exact hcached.1.1

/-! ### Reading components -/

/-- What is checked behind the attachment. -/
def parseRest (attachment : PaperclipAttachment) (components parts : List Text)
    (style fileName : Text) : Option PaperclipPath :=
  if parts.length < 3 || parts.any fun part => !isPartition part then none
  else do
    let id ← parseDigits parts.flatten
    let canonical ← partitionedId id
    if canonical.splitOn '/' ≠ parts then none
    else
      if !style.all isStyleChar || !attachmentPermitsStyle attachment style ||
          !safeComponent fileName then none
      else some ⟨join components, attachment, id⟩

theorem parseRest_short {attachment : PaperclipAttachment} {components parts : List Text}
    {style fileName : Text} (h : parts.length < 3) :
    parseRest attachment components parts style fileName = none := by
  rw [parseRest, if_pos (by simp [h])]

/-- The reader takes a path apart where it has been put together. -/
theorem parseComponents_eq {cached : Bool} {first second : Text} {parts : List Text}
    {style fileName : Text} (hfirst : cached = false → first ≠ "cache".toList) :
    parseComponents (cacheParts cached ++ first :: second :: (parts ++ [style, fileName])) =
      (attachmentForPath (first ++ '/' :: second)).bind fun attachment =>
        if cached = true ∧ attachment.permitsCache = false then none
        else parseRest attachment
          (cacheParts cached ++ first :: second :: (parts ++ [style, fileName])) parts style fileName := by
  have hnone : parts.length < 3 → ((attachmentForPath (first ++ '/' :: second)).bind fun attachment =>
      if cached = true ∧ attachment.permitsCache = false then none
      else parseRest attachment
        (cacheParts cached ++ first :: second :: (parts ++ [style, fileName])) parts style fileName) =
        none := by
    intro hshort
    cases attachmentForPath (first ++ '/' :: second) with
    | none => rfl
    | some attachment => simp only [Option.bind_some, parseRest_short hshort, ite_self]
  generalize hcomponents : cacheParts cached ++ first :: second :: (parts ++ [style, fileName]) =
    components at hnone ⊢
  generalize hoffset : (cacheParts cached).length = offset
  have hone : offset = 1 ↔ cached = true := by
    rw [← hoffset]
    cases cached <;> simp [cacheParts]
  have hhead : (if components.head? = some "cache".toList then 1 else 0) = offset := by
    rw [← hoffset, ← hcomponents]
    cases cached with
    | false => exact if_neg fun hcache => hfirst rfl (Option.some.inj hcache)
    | true => exact if_pos rfl
  have hlength : components.length = offset + parts.length + 4 := by
    rw [← hoffset, ← hcomponents]
    simp
    omega
  by_cases hshort : components.length < 7
  · rw [parseComponents, if_pos hshort, hnone (by omega)]
  have hget (n : ℕ) : components[offset + n]? =
      (first :: second :: (parts ++ [style, fileName]))[n]? := by
    rw [← hoffset, ← hcomponents, List.getElem?_append_right (Nat.le_add_right _ n),
      Nat.add_sub_cancel_left]
  have hstyle : components[components.length - 2]? = some style := by
    have hindex : components.length - 2 = offset + (parts.length + 2) := by omega
    rw [hindex, hget]
    simp
  have hfileName : components[components.length - 2 + 1]? = some fileName := by
    have hindex : components.length - 2 + 1 = offset + (parts.length + 3) := by omega
    rw [hindex, hget]
    simp
  have hpartition : (components.take (components.length - 2)).drop (offset + 2) = parts := by
    have hbefore : components = (cacheParts cached ++ [first, second]) ++ parts ++
        [style, fileName] := by
      rw [← hcomponents]
      simp
    have hsize : components.length - 2 = ((cacheParts cached ++ [first, second]) ++ parts).length := by
      simp [hoffset]
      omega
    have hstart : offset + 2 = (cacheParts cached ++ [first, second]).length := by simp [hoffset]
    rw [hsize, hbefore, List.take_left, hstart, List.drop_left]
  rw [parseComponents, if_neg hshort]
  simp only [hhead]
  rw [hget 1, show components[offset]? = some first from hget 0]
  simp only [Option.bind_eq_bind, Option.bind_some, List.getElem?_cons_succ, List.getElem?_cons_zero]
  refine congrArg _ (funext fun attachment => ?_)
  simp only [hone, Bool.not_eq_true', hpartition, hstyle, hfileName, Option.bind_some]
  by_cases hcache : cached = true ∧ attachment.permitsCache = false
  · rw [if_pos hcache, if_pos hcache]
  by_cases hstart : components.length - 2 ≤ offset + 2
  · rw [if_neg hcache, if_neg hcache, if_pos hstart, parseRest_short (by omega)]
  · rw [if_neg hcache, if_neg hcache, if_neg hstart]
    rfl

theorem parseDigits_of_partition {id : Int64} {parts : List Text} (hne : parts ≠ [])
    (hparts : ∀ part ∈ parts, isPartition part = true) (h : partitionedId id = some (join parts)) :
    parseDigits parts.flatten = some id := by
  obtain ⟨parts', hjoin, hlength, hparts', hdigits⟩ := partitionedId_spec h
  have hne' : parts' ≠ [] := by
    rintro rfl
    simp at hlength
  have hsplit := splitOn_join hne fun part hpart => not_mem_of_isPartition (hparts part hpart)
  have hsplit' := splitOn_join hne' fun part hpart => not_mem_of_isPartition (hparts' part hpart)
  rw [hjoin, hsplit'] at hsplit
  rwa [← hsplit]

theorem parseComponents_layout {cached : Bool} {attachment : PaperclipAttachment} {id : Int64}
    {parts : List Text} {style fileName : Text}
    (h : IsLayout cached attachment id parts style fileName) :
    parseComponents (layout cached attachment parts style fileName) =
      some ⟨join (layout cached attachment parts style fileName), attachment, id⟩ := by
  have hlength := h.length
  have hne : parts ≠ [] := by
    rintro rfl
    simp at hlength
  have hsplit : (join parts).splitOn '/' = parts :=
    splitOn_join hne fun part hpart => not_mem_of_isPartition (h.parts part hpart)
  have hguard : ¬ (decide (parts.length < 3) || parts.any fun part => !isPartition part) = true := by
    simpa using ⟨hlength, h.parts⟩
  have hcache : ¬ (cached = true ∧ attachment.permitsCache = false) := by
    rintro ⟨hcached, hpermits⟩
    rw [h.cache hcached] at hpermits
    cases hpermits
  rw [layout, parseComponents_eq fun _ => attachment.folders_spec.1, ← attachment.path_eq,
    attachmentForPath_path, Option.bind_some, if_neg hcache, parseRest, if_neg hguard,
    parseDigits_of_partition hne h.parts h.partition]
  simp only [Option.bind_eq_bind, Option.bind_some, h.partition, hsplit, ne_eq, not_true_eq_false,
    if_false, isStyleChar_of_permits h.style, h.style, h.fileName, Bool.not_true, Bool.or_false,
    Bool.false_eq_true]

theorem cacheParts_append (components : List Text) : ∃ cached rest,
    components = cacheParts cached ++ rest ∧ (cached = false → rest.head? ≠ some "cache".toList) := by
  by_cases hcache : components.head? = some "cache".toList
  · obtain ⟨rest, rfl⟩ := List.head?_eq_some_iff.mp hcache
    exact ⟨true, rest, rfl, nofun⟩
  · exact ⟨false, components, rfl, fun _ => hcache⟩

/-- A request that is read has the layout of a stored file. -/
theorem parseComponents_eq_some {components : List Text} {q : PaperclipPath}
    (hslash : ∀ component ∈ components, '/' ∉ component)
    (h : parseComponents components = some q) : ∃ cached parts style fileName,
      components = layout cached q.attachment parts style fileName ∧
        q.relativePath = join components ∧
          IsLayout cached q.attachment q.id parts style fileName := by
  have hlong : 7 ≤ components.length := by
    by_contra hshort
    rw [parseComponents, if_pos (by omega)] at h
    cases h
  obtain ⟨cached, rest, rfl, hhead⟩ := cacheParts_append components
  have hrest : 6 ≤ rest.length := by
    cases cached <;> simp [cacheParts] at hlong <;> omega
  obtain ⟨first, second, parts, style, fileName, rfl⟩ : ∃ first second parts style fileName,
      rest = first :: second :: (parts ++ [style, fileName]) := by
    match rest with
    | first :: second :: tail =>
      have htail : (tail.drop (tail.length - 2)).length = 2 := by
        simp only [List.length_cons] at hrest
        rw [List.length_drop]
        omega
      obtain ⟨style, fileName, hlast⟩ := List.length_eq_two.mp htail
      refine ⟨first, second, tail.take (tail.length - 2), style, fileName, ?_⟩
      rw [← hlast, List.take_append_drop]
  rw [parseComponents_eq fun hcached hfirst => hhead hcached (by rw [hfirst]; rfl)] at h
  obtain ⟨attachment, hattachment, h⟩ := Option.bind_eq_some_iff.mp h
  have hpath := path_of_attachmentForPath hattachment
  have hfolders : first = attachment.topFolder ∧ second = attachment.folder := by
    have hfirst : '/' ∉ first := hslash first (by simp)
    have htop : '/' ∉ attachment.topFolder :=
      not_mem_of_safeComponent attachment.folders_spec.2.1
    have hsplit := splitOnce_separator hfirst second
    rw [← hpath, attachment.path_eq, splitOnce_separator htop] at hsplit
    obtain ⟨htop, hfolder⟩ := Prod.mk.inj (Option.some.inj hsplit)
    exact ⟨htop.symm, hfolder.symm⟩
  obtain ⟨rfl, rfl⟩ := hfolders
  by_cases hcache : cached = true ∧ attachment.permitsCache = false
  · rw [if_pos hcache] at h
    cases h
  rw [if_neg hcache, parseRest] at h
  split at h
  · cases h
  rename_i hparts
  obtain ⟨id, hid, h⟩ := Option.bind_eq_some_iff.mp h
  obtain ⟨canonical, hcanonical, h⟩ := Option.bind_eq_some_iff.mp h
  split at h
  · cases h
  rename_i hsplit
  split at h
  · cases h
  rename_i hchecks
  obtain rfl := Option.some.inj h
  rw [ne_eq, not_not] at hsplit
  have hjoin := @List.intercalate_splitOn Char canonical _ _ '/'
  rw [← hjoin, hsplit] at hcanonical
  simp only [Bool.or_eq_true, decide_eq_true_iff, List.any_eq_true, not_or, not_exists, not_and,
    Bool.not_eq_true', Bool.not_eq_false] at hparts hchecks hcache
  exact ⟨cached, parts, style, fileName, rfl, rfl, hcache, hcanonical, by omega, hparts.2,
    hchecks.1.2, hchecks.2⟩

/-! ### The round trip -/

theorem style_layout {cached : Bool} {attachment : PaperclipAttachment} {id : Int64}
    {parts : List Text} {style fileName : Text}
    (h : IsLayout cached attachment id parts style fileName) :
    PaperclipPath.style ⟨join (layout cached attachment parts style fileName), attachment, id⟩ =
      style := by
  have hstyle := not_mem_of_safeComponent (safeComponent_of_permits h.style)
  have hfileName := not_mem_of_safeComponent h.fileName
  generalize hbefore : cacheParts cached ++ attachment.topFolder :: attachment.folder :: parts =
    before
  have hne : before ≠ [] := by
    rw [← hbefore]
    simp
  have hjoin : join (layout cached attachment parts style fileName) =
      join before ++ '/' :: style ++ '/' :: fileName := by
    have hlayout : layout cached attachment parts style fileName = before ++ [style, fileName] := by
      rw [← hbefore, layout]
      simp
    rw [hlayout, join_append hne (by simp), join_cons (by simp)]
    simp [join]
  rw [PaperclipPath.style, hjoin, rsplitOnce_append hfileName]
  simp only [rsplitOnce_append hstyle]
  rfl

theorem mapM_decodeComponent {components : List Text}
    (h : ∀ component ∈ components, safeComponent component = true) :
    (components.map encodeComponent).mapM decodeComponent = some components := by
  induction components with
  | nil => rfl
  | cons component components ih =>
    obtain ⟨hcomponent, hcomponents⟩ := List.forall_mem_cons.mp h
    rw [List.map_cons, List.mapM_cons, decodeComponent_encodeComponent hcomponent, ih hcomponents]
    rfl

theorem head_join {component : Text} {components : List Text} (hne : component ≠ [])
    (hslash : '/' ∉ component) : (join (component :: components)).head? ≠ some '/' ∧
      join (component :: components) ≠ [] := by
  obtain ⟨c, rest, rfl⟩ := List.exists_cons_of_ne_nil hne
  have hc : c ≠ '/' := fun h => hslash (h ▸ List.mem_cons_self)
  cases components with
  | nil => simp [join, hc]
  | cons second components =>
    rw [join_cons (List.cons_ne_nil _ _)]
    simp [hc]

theorem parsePaperclipPath_encode {cached : Bool} {attachment : PaperclipAttachment} {id : Int64}
    {parts : List Text} {style fileName : Text}
    (h : IsLayout cached attachment id parts style fileName) :
    parsePaperclipPath (encodeUrlPath (join (layout cached attachment parts style fileName))) =
      some ⟨join (layout cached attachment parts style fileName), attachment, id⟩ := by
  have hsafe := h.safe
  have hparse := parseComponents_layout h
  have hne : layout cached attachment parts style fileName ≠ [] := by simp [layout]
  generalize layout cached attachment parts style fileName = components at hsafe hparse hne ⊢
  have hslash : ∀ component ∈ components, '/' ∉ component := fun component hmem =>
    not_mem_of_safeComponent (hsafe component hmem)
  have hencode : encodeUrlPath (join components) = join (components.map encodeComponent) := by
    rw [encodeUrlPath, splitOn_join hne hslash]
  have hsplit : (join (components.map encodeComponent)).splitOn '/' =
      components.map encodeComponent := by
    refine splitOn_join (by simpa using hne) fun encoded hmem => ?_
    obtain ⟨component, -, rfl⟩ := List.mem_map.mp hmem
    exact not_mem_encodeComponent component
  have hhead : (join (components.map encodeComponent)).head? ≠ some '/' ∧
      join (components.map encodeComponent) ≠ [] := by
    obtain ⟨component, rest, rfl⟩ := List.exists_cons_of_ne_nil hne
    have hcomponent := ne_nil_of_safeComponent (hsafe component List.mem_cons_self)
    exact head_join (encodeComponent_ne_nil hcomponent) (not_mem_encodeComponent component)
  rw [hencode, parsePaperclipPath, if_neg, hsplit, mapM_decodeComponent hsafe]
  · exact hparse
  · simp [hhead.1, hhead.2, validPercentEncoding_join]

/-- Paths of files with different attachments or ids are different. -/
theorem layout_injective {cached cached' : Bool} {attachment attachment' : PaperclipAttachment}
    {parts parts' : List Text} {style style' fileName fileName' : Text}
    (h : layout cached attachment parts style fileName =
      layout cached' attachment' parts' style' fileName') :
    attachment = attachment' ∧ parts = parts' := by
  have hcached : cached = cached' := by
    have hhead := congrArg List.head? h
    cases cached with
    | false =>
      cases cached' with
      | false => rfl
      | true => exact absurd (Option.some.inj hhead) attachment.folders_spec.1
    | true =>
      cases cached' with
      | false => exact absurd (Option.some.inj hhead).symm attachment'.folders_spec.1
      | true => rfl
  subst hcached
  obtain ⟨htop, hrest⟩ := List.cons.inj (List.append_cancel_left h)
  obtain ⟨hfolder, hrest⟩ := List.cons.inj hrest
  refine ⟨PaperclipAttachment.path_injective ?_, ?_⟩
  · rw [attachment.path_eq, attachment'.path_eq, htop, hfolder]
  · exact (List.append_inj' hrest rfl).1

theorem partitionedId_injective {id id' : Int64} {parts : List Text} (hne : parts ≠ [])
    (hparts : ∀ part ∈ parts, isPartition part = true) (h : partitionedId id = some (join parts))
    (h' : partitionedId id' = some (join parts)) : id = id' := by
  have hdigits := parseDigits_of_partition hne hparts h
  rw [parseDigits_of_partition hne hparts h'] at hdigits
  exact (Option.some.inj hdigits).symm

theorem join_injective {components components' : List Text} (hne : components ≠ [])
    (hne' : components' ≠ []) (h : ∀ component ∈ components, '/' ∉ component)
    (h' : ∀ component ∈ components', '/' ∉ component) (heq : join components = join components') :
    components = components' := by
  have hsplit := splitOn_join hne h
  rwa [heq, splitOn_join hne' h', eq_comm] at hsplit

/-- A request is authorized by the metadata of its own attachment and id only. -/
theorem authorizes_spec {cached : Bool} {attachment : PaperclipAttachment} {id : Int64}
    {parts : List Text} {style fileName : Text}
    (h : IsLayout cached attachment id parts style fileName) {m : PaperclipMetadata}
    (hauthorizes : PaperclipPath.authorizes
      ⟨join (layout cached attachment parts style fileName), attachment, id⟩ m = true) :
    m.attachment = attachment ∧ m.id = id := by
  rw [PaperclipPath.authorizes, decide_eq_true_iff] at hauthorizes
  obtain ⟨parts', fileName', hjoin, hlayout⟩ := relativePath_layout hauthorizes
  have heq := join_injective (by simp [layout]) (by simp [layout])
    (fun component hmem => not_mem_of_safeComponent (h.safe component hmem))
    (fun component hmem => not_mem_of_safeComponent (hlayout.safe component hmem)) hjoin
  obtain ⟨rfl, rfl⟩ := layout_injective heq
  have hne : parts ≠ [] := by
    rintro rfl
    exact absurd h.length (by simp)
  exact ⟨rfl, partitionedId_injective hne h.parts hlayout.partition h.partition⟩

/-! ### Confinement -/

theorem safeComponent_of_decodeComponent {value component : Text}
    (h : decodeComponent value = some component) : safeComponent component = true := by
  rw [decodeComponent] at h
  split_ifs at h
  exact (Option.filter_eq_some_iff.mp h).2

theorem safe_of_mapM {values components : List Text}
    (h : values.mapM decodeComponent = some components) :
    ∀ component ∈ components, safeComponent component = true := by
  induction values generalizing components with
  | nil =>
    obtain rfl := Option.some.inj h
    exact nofun
  | cons value values ih =>
    rw [List.mapM_cons] at h
    obtain ⟨component, hcomponent, h⟩ := Option.bind_eq_some_iff.mp h
    obtain ⟨rest, hrest, h⟩ := Option.bind_eq_some_iff.mp h
    obtain rfl := Option.some.inj h
    exact List.forall_mem_cons.mpr ⟨safeComponent_of_decodeComponent hcomponent, ih hrest⟩

/-- A path of safe components has them as its components. -/
theorem safeRelativePath_join {components : List Text} (hne : components ≠ [])
    (h : ∀ component ∈ components, safeComponent component = true) :
    safeRelativePath (join components) = true := by
  have hsplit := splitOn_join hne fun component hmem => not_mem_of_safeComponent (h component hmem)
  have hspec := fun component hmem => safeComponent_iff.mp (h component hmem)
  have hpieces : (components.filter fun piece => !piece.isEmpty && !decide (piece = ['.'])) =
      components := by
    rw [List.filter_eq_self]
    intro component hmem
    obtain ⟨hnil, hdot, -⟩ := hspec component hmem
    simp [hnil, hdot]
  have hnormal : components.map componentOf = components.map .normal := by
    rw [List.map_inj_left]
    intro component hmem
    exact if_neg (hspec component hmem).2.2.1
  have hpath : pathComponents (join components) = components.map .normal := by
    rw [pathComponents, hsplit, hpieces, hnormal]
    obtain ⟨component, rest, rfl⟩ := List.exists_cons_of_ne_nil hne
    obtain ⟨hnil, hdot, -⟩ := hspec component List.mem_cons_self
    have hhead := @head_join component rest hnil
      (not_mem_of_safeComponent (h component List.mem_cons_self))
    simp [hhead.1, hdot]
  rw [safeRelativePath, hpath]
  simpa [hne] using h

theorem parsePaperclipPath_spec {u : Text} {q : PaperclipPath} (h : parsePaperclipPath u = some q) :
    ∃ components, (u.splitOn '/').mapM decodeComponent = some components ∧
      q.relativePath = join components ∧
      (∀ component ∈ components, safeComponent component = true) ∧
      ∃ cached parts style fileName, components = layout cached q.attachment parts style fileName ∧
        IsLayout cached q.attachment q.id parts style fileName := by
  rw [parsePaperclipPath] at h
  split_ifs at h
  obtain ⟨components, hcomponents, h⟩ := Option.bind_eq_some_iff.mp h
  have hsafe := safe_of_mapM hcomponents
  obtain ⟨cached, parts, style, fileName, hlayout, hpath, hlaid⟩ := parseComponents_eq_some
    (fun component hmem => not_mem_of_safeComponent (hsafe component hmem)) h
  exact ⟨components, hcomponents, hpath, hsafe, cached, parts, style, fileName, hlayout, hlaid⟩

/-- CORRECT (paths): the encoded path of a stored file is read as that file's attachment and id and is
    authorized by it; whatever is read stays below the root, has the canonical partition of its id,
    and is authorized for one attachment and id at most. -/
theorem paperclip_paths :
    (∀ (m : PaperclipMetadata) (style p : Text), m.relativePath style = some p →
      ∃ q, parsePaperclipPath (encodeUrlPath p) = some q ∧ q.relativePath = p ∧ q.id = m.id ∧
        q.attachment = m.attachment ∧ q.authorizes m = true) ∧
    ∀ (u : Text) (q : PaperclipPath), parsePaperclipPath u = some q →
      (∃ components, (u.splitOn '/').mapM decodeComponent = some components ∧
        q.relativePath = join components ∧
        ∀ component ∈ components, safeComponent component = true) ∧
      safeRelativePath q.relativePath = true ∧
      (∃ cached parts style fileName, partitionedId q.id = some (join parts) ∧
        q.relativePath = join (layout cached q.attachment parts style fileName)) ∧
      ∀ m m' : PaperclipMetadata, q.authorizes m = true → q.authorizes m' = true →
        m.attachment = m'.attachment ∧ m.id = m'.id := by
  constructor
  · intro m style p hp
    obtain ⟨parts, fileName, rfl, hlayout⟩ := relativePath_layout hp
    refine ⟨_, parsePaperclipPath_encode hlayout, rfl, rfl, rfl, ?_⟩
    rw [PaperclipPath.authorizes, style_layout hlayout, decide_eq_true_iff]
    exact hp
  · intro u q hq
    obtain ⟨components, hdecoded, hpath, hsafe, cached, parts, style, fileName, rfl, hlayout⟩ :=
      parsePaperclipPath_spec hq
    obtain ⟨relativePath, attachment, id⟩ := q
    simp only at hpath hdecoded hsafe hlayout
    subst hpath
    refine ⟨⟨_, hdecoded, rfl, hsafe⟩, safeRelativePath_join (by simp [layout]) hsafe,
      ⟨cached, parts, style, fileName, hlayout.partition, rfl⟩, fun m m' hm hm' => ?_⟩
    obtain ⟨hattachment, hid⟩ := authorizes_spec hlayout hm
    obtain ⟨hattachment', hid'⟩ := authorizes_spec hlayout hm'
    exact ⟨hattachment.trans hattachment'.symm, hid.trans hid'.symm⟩

/-- A cached preview with a name that has to be encoded. -/
def sampleMetadata : PaperclipMetadata where
  attachment := .mediaFile
  id := 123456789012
  remote := true
  storageSchemaVersion := some 1
  fileName := "a b%é.gif".toList
  contentType := some "image/gif".toList
  variant := none

theorem paperclip_paths_sample : ∃ q, parsePaperclipPath
    "cache/media_attachments/files/123/456/789/012/small/a%20b%25%C3%A9.png".toList = some q ∧
      q.authorizes sampleMetadata = true ∧ safeRelativePath q.relativePath = true := by
  have hpath : sampleMetadata.relativePath small =
      some "cache/media_attachments/files/123/456/789/012/small/a b%é.png".toList := by
    decide
  have hencode : encodeUrlPath
      "cache/media_attachments/files/123/456/789/012/small/a b%é.png".toList =
        "cache/media_attachments/files/123/456/789/012/small/a%20b%25%C3%A9.png".toList := by
    decide
  obtain ⟨q, hq, -, -, -, hauthorizes⟩ := paperclip_paths.1 sampleMetadata small _ hpath
  rw [hencode] at hq
  exact ⟨q, hq, hauthorizes, (paperclip_paths.2 _ q hq).2.1⟩

end Rustodon.Media
