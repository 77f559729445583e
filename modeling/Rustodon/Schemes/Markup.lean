import Rustodon.Schemes.Utf8

/-! @scheme markup | name:Reading markup

    A reader of markup goes through a text and keeps the names of the open elements and the contents
    of the tags. It fails on a bracket or a quote between tags, on a bracket in a tag outside quotes,
    and on a closing tag of another element. -/

namespace Schemes.Markup
open Schemes.Utf8

/-- Between tags, or in a tag with what has been read of it. -/
inductive Mode where
  | text
  | tag (content : Text) (quoted : Bool)
  deriving DecidableEq, Repr

/-- The names of the open elements start with the innermost one. -/
structure Reader where
  mode : Mode
  opened : List Text
  tags : List Text
  deriving DecidableEq, Repr

def start : Reader := ⟨.text, [], []⟩

def tagName (content : Text) : Text := content.takeWhile (· ≠ ' ')

/-- A complete tag: closing, without content, or opening. -/
def Reader.finish (r : Reader) (content : Text) : Option Reader :=
  match content with
  | '/' :: name =>
    match r.opened with
    | [] => none
    | innermost :: opened =>
      if innermost = name then some ⟨.text, opened, r.tags ++ [content]⟩ else none
  | _ =>
    if content.getLast? = some '/' then some ⟨.text, r.opened, r.tags ++ [content]⟩
    else some ⟨.text, tagName content :: r.opened, r.tags ++ [content]⟩

def Reader.step (r : Reader) (c : Char) : Option Reader :=
  match r.mode with
  | .text =>
    if c = '<' then some { r with mode := .tag [] false }
    else if c = '>' ∨ c = '"' then none
    else some r
  | .tag content quoted =>
    if c = '"' then some { r with mode := .tag (content ++ [c]) !quoted }
    else if quoted then some { r with mode := .tag (content ++ [c]) quoted }
    else if c = '>' then r.finish content
    else if c = '<' then none
    else some { r with mode := .tag (content ++ [c]) quoted }

def Reader.read (r : Reader) (s : Text) : Option Reader := s.foldlM Reader.step r

/-- The tags of a text in which every element is closed. -/
def tagsOf (s : Text) : Option (List Text) :=
  match start.read s with
  | some ⟨.text, [], tags⟩ => some tags
  | _ => none

/-- The value of the attribute `href`. -/
def hrefOf (tag : Text) : Option Text :=
  (splitOnce " href=\"".toList tag).map fun (_, rest) => rest.takeWhile (· ≠ '"')

/-! ### Pieces of markup -/

theorem Reader.read_nil (r : Reader) : r.read [] = some r := rfl

theorem Reader.read_append (r : Reader) (s t : Text) : r.read (s ++ t) = (r.read s).bind (·.read t) :=
  List.foldlM_append

theorem Reader.read_cons (r : Reader) (c : Char) (s : Text) :
    r.read (c :: s) = (r.step c).bind (·.read s) := List.foldlM_cons

/-- Nothing that a reader looks for. -/
def Plain (s : Text) : Prop := ∀ c ∈ s, c ≠ '<' ∧ c ≠ '>' ∧ c ≠ '"'

instance : DecidablePred Plain := List.decidableBAll _

theorem Plain.append {s t : Text} (hs : Plain s) (ht : Plain t) : Plain (s ++ t) :=
  List.forall_mem_append.mpr ⟨hs, ht⟩

theorem read_plain {opened tags : List Text} {s : Text} (h : Plain s) :
    (Reader.mk .text opened tags).read s = some ⟨.text, opened, tags⟩ := by
  induction s with
  | nil => rfl
  | cons c s ih =>
    obtain ⟨hlt, hgt, hquote⟩ := h c List.mem_cons_self
    have hstep : (Reader.mk .text opened tags).step c = some ⟨.text, opened, tags⟩ := by
      simp [Reader.step, hlt, hgt, hquote]
    rw [Reader.read_cons, hstep, Option.bind_some, ih fun d hd => h d (List.mem_cons_of_mem c hd)]

/-- Whether a value is open behind a text in a tag. -/
def inTag : Bool → Text → Option Bool
  | quoted, [] => some quoted
  | quoted, c :: s =>
    if c = '"' then inTag (!quoted) s
    else if quoted then inTag quoted s
    else if c = '>' ∨ c = '<' then none
    else inTag quoted s

theorem inTag_append (quoted : Bool) (s t : Text) :
    inTag quoted (s ++ t) = (inTag quoted s).bind fun quoted => inTag quoted t := by
  induction s generalizing quoted with
  | nil => rfl
  | cons c s ih =>
    rw [List.cons_append, inTag, inTag, ih, ih]
    split_ifs <;> rfl

/-- In quotes everything but a quote is taken. -/
theorem inTag_quoted {s : Text} (h : '"' ∉ s) : inTag true s = some true := by
  induction s with
  | nil => rfl
  | cons c s ih =>
    rw [List.mem_cons, not_or] at h
    rw [inTag, if_neg (Ne.symm h.1), if_pos rfl, ih h.2]

theorem read_inTag {opened tags : List Text} {content s : Text} {quoted quoted' : Bool}
    (h : inTag quoted s = some quoted') :
    (Reader.mk (.tag content quoted) opened tags).read s =
      some ⟨.tag (content ++ s) quoted', opened, tags⟩ := by
  induction s generalizing content quoted with
  | nil =>
    obtain rfl := Option.some.inj h
    rw [List.append_nil, Reader.read_nil]
  | cons c s ih =>
    have happend : content ++ c :: s = content ++ [c] ++ s := by simp
    rw [inTag] at h
    rw [Reader.read_cons, Reader.step, happend]
    simp only
    by_cases hquote : c = '"'
    · rw [if_pos hquote] at h ⊢
      exact ih h
    by_cases hquoted : quoted = true
    · rw [if_neg hquote, if_pos hquoted] at h ⊢
      exact ih h
    rw [if_neg hquote, if_neg hquoted] at h ⊢
    by_cases hbracket : c = '>' ∨ c = '<'
    · rw [if_pos hbracket] at h
      cases h
    · rw [if_neg hbracket] at h
      rw [if_neg fun hgt => hbracket (Or.inl hgt), if_neg fun hlt => hbracket (Or.inr hlt)]
      exact ih h

theorem read_tag {opened tags : List Text} {content : Text} (h : inTag false content = some false) :
    (Reader.mk .text opened tags).read ('<' :: content ++ ['>']) =
      (Reader.mk (.tag content false) opened tags).finish content := by
  have hopen : (Reader.mk .text opened tags).step '<' = some ⟨.tag [] false, opened, tags⟩ := rfl
  have hclose : (Reader.mk (.tag content false) opened tags).step '>' =
      (Reader.mk (.tag content false) opened tags).finish content := rfl
  rw [List.cons_append, Reader.read_cons, hopen, Option.bind_some, Reader.read_append,
    read_inTag h, Option.bind_some, List.nil_append, Reader.read_cons, hclose]
  cases (Reader.mk (.tag content false) opened tags).finish content <;> rfl

theorem Reader.finish_open (r : Reader) {content : Text} (hhead : content.head? ≠ some '/')
    (hlast : content.getLast? ≠ some '/') :
    r.finish content = some ⟨.text, tagName content :: r.opened, r.tags ++ [content]⟩ := by
  unfold Reader.finish
  split
  · exact absurd rfl hhead
  · rw [if_neg hlast]

theorem Reader.finish_void (r : Reader) {content : Text} (hhead : content.head? ≠ some '/')
    (hlast : content.getLast? = some '/') :
    r.finish content = some ⟨.text, r.opened, r.tags ++ [content]⟩ := by
  unfold Reader.finish
  split
  · exact absurd rfl hhead
  · rw [if_pos hlast]

theorem Reader.finish_close {mode : Mode} {name : Text} {opened tags : List Text} :
    (Reader.mk mode (name :: opened) tags).finish ('/' :: name) =
      some ⟨.text, opened, tags ++ ['/' :: name]⟩ := if_pos rfl

end Schemes.Markup
