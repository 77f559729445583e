import Mathlib.Data.List.TakeWhile
import Rustodon.Web.RackShape

/-! @src web/request_params.rs | name:Rack names | scheme:parsing | family:web

    How a name is written: a root, which ends before the first opening bracket behind its first
    character, and pieces between brackets. The loop over the name reads what is written, except
    that it looks for the bracket behind the first byte. -/

namespace Rustodon.Web
open Schemes.Checked Schemes.Utf8

/-! ### What is written -/

/-- What stands behind a root: pieces in brackets, where the last bracket may be left open, or a text
    may stand behind it. -/
inductive Brackets where
  | nothing
  | unclosed (piece : Text)
  | trailing (piece text : Text)
  | closed (piece : Text) (next : Brackets)
  deriving DecidableEq

namespace Brackets

def text : Brackets → Text
  | .nothing => []
  | .unclosed piece => '[' :: piece
  | .trailing piece text => '[' :: (piece ++ ']' :: text)
  | .closed piece next => '[' :: (piece ++ ']' :: next.text)

/-- A piece ends at the first closing bracket, and a text behind the last does not begin with an
    opening one. -/
def Written : Brackets → Prop
  | .nothing => True
  | .unclosed piece => ']' ∉ piece
  | .trailing piece text => ']' ∉ piece ∧ text ≠ [] ∧ text.head? ≠ some '['
  | .closed piece next => ']' ∉ piece ∧ next.Written

/-- The segments, from left to right. A second empty piece after a push is a key of its own unless it
    is the last, and a text behind an empty last piece is kept with the push. -/
def segments : Bool → Brackets → List RackKeySegment
  | _, .nothing => []
  | _, .unclosed piece => if piece = [] then [.push] else [.field piece]
  | pushed, .trailing piece text =>
    if piece ≠ [] then [.field piece, .field text]
    else if pushed then [.field ['[', ']'], .field text]
    else [.trailingPush text]
  | pushed, .closed piece next =>
    if piece ≠ [] then .field piece :: next.segments false
    else if pushed = true ∧ next ≠ .nothing then .field ['[', ']'] :: next.segments false
    else .push :: next.segments true

end Brackets

def RackKeySegment.text : RackKeySegment → Text
  | .field name | .trailingPush name => name
  | .push => []

/-- The characters that are not brackets. -/
def unbracketed (text : Text) : Text := text.filter fun c => c ≠ '[' && c ≠ ']'

/-- A name is read as it is written: its root is what precedes the first opening bracket behind the
    first character, its segments are those of the brackets behind the root, no character apart from
    brackets is lost or written twice, and there are too many segments exactly when they reach the
    limit. -/
def ReadAsWritten : Text → Prop
  | [] => rackKey [] = .ok none
  | c :: rest => ∃ brackets : Brackets, brackets.Written ∧
      brackets.text = rest.dropWhile (· ≠ '[') ∧
      (rackKey (c :: rest) = .error .limit ↔ rackDepthLimit ≤ (brackets.segments false).length) ∧
      ((brackets.segments false).length < rackDepthLimit →
        rackKey (c :: rest) = .ok (some (c :: rest.takeWhile (· ≠ '['), brackets.segments false))) ∧
      ∀ root segments, rackKey (c :: rest) = .ok (some (root, segments)) →
        unbracketed (root ++ segments.flatMap RackKeySegment.text) = unbracketed (c :: rest)

/-! ### Brackets of a text -/

namespace Brackets

theorem text_eq_nil {b : Brackets} : b.text = [] ↔ b = .nothing := by
  cases b <;> simp [text]

theorem text_started (b : Brackets) : b.text = [] ∨ b.text.head? = some '[' := by
  cases b <;> simp [text]

theorem exists_written {suffix : Text} (h : suffix = [] ∨ suffix.head? = some '[') :
    ∃ b : Brackets, b.Written ∧ b.text = suffix := by
  induction hlength : suffix.length using Nat.strong_induction_on generalizing suffix with
  | _ length ih =>
    rcases h with rfl | h
    · exact ⟨.nothing, trivial, rfl⟩
    obtain ⟨rest, rfl⟩ := List.head?_eq_some_iff.mp h
    cases hsplit : splitOnce [']'] rest with
    | none => exact ⟨.unclosed rest, not_mem_of_splitOnce_none hsplit, rfl⟩
    | some cut =>
      obtain ⟨piece, remaining⟩ := cut
      have hpiece : ']' ∉ piece := not_mem_splitOnce hsplit
      have hrest : rest = piece ++ ']' :: remaining := by
        simpa using splitOnce_eq_some hsplit
      by_cases hstart : remaining = [] ∨ remaining.head? = some '['
      · have hshort : remaining.length < length := by
          rw [← hlength, hrest]
          simp
          omega
        obtain ⟨next, hnext, htext⟩ := ih _ hshort hstart rfl
        exact ⟨.closed piece next, ⟨hpiece, hnext⟩, by rw [text, htext, hrest]⟩
      · rw [not_or] at hstart
        exact ⟨.trailing piece remaining, ⟨hpiece, hstart⟩, by rw [text, hrest]⟩

theorem splitOnce_unclosed {piece : Text} (hpiece : ']' ∉ piece) : splitOnce [']'] piece = none := by
  have h := @splitOnce_append_of_not_mem ']' [] piece [] hpiece
  simpa [splitOnce] using h

/-- What is cut at the first closing bracket. -/
def cut : Brackets → Option (Text × Text)
  | .nothing | .unclosed _ => none
  | .trailing piece text => some (piece, text)
  | .closed piece next => some (piece, next.text)

theorem Written.cut {b : Brackets} (h : b.Written) : splitOnce [']'] b.text.tail = b.cut := by
  cases b with
  | nothing => rfl
  | unclosed piece => exact splitOnce_unclosed h
  | trailing piece text => exact splitOnce_separator h.1 _
  | closed piece next => exact splitOnce_separator h.1 _

theorem written_unique {b b' : Brackets} (h : b.Written) (h' : b'.Written) (heq : b.text = b'.text) :
    b = b' := by
  induction b generalizing b' with
  | nothing => exact (text_eq_nil.mp heq.symm).symm
  | unclosed piece =>
    have hcut : none = b'.cut := by rw [← h'.cut, ← heq, h.cut, Brackets.cut]
    cases b' <;> simp_all [Brackets.cut, text]
  | trailing piece text =>
    have hcut : some (piece, text) = b'.cut := by rw [← h'.cut, ← heq, h.cut, Brackets.cut]
    cases b' with
    | nothing | unclosed => cases hcut
    | trailing => simp_all [Brackets.cut]
    | closed piece' next =>
      obtain ⟨rfl, rfl⟩ := Prod.mk.inj (Option.some.inj hcut)
      exact absurd next.text_started (not_or.mpr h.2)
  | closed piece next ih =>
    have hcut : some (piece, next.text) = b'.cut := by rw [← h'.cut, ← heq, h.cut, Brackets.cut]
    cases b' with
    | nothing | unclosed => cases hcut
    | trailing piece' text =>
      obtain ⟨rfl, rfl⟩ := Prod.mk.inj (Option.some.inj hcut)
      exact absurd next.text_started (not_or.mpr h'.2)
    | closed piece' next' =>
      obtain ⟨rfl, hnext⟩ := Prod.mk.inj (Option.some.inj hcut)
      rw [ih h.2 h'.2 hnext]

/-- A text that begins with a bracket is written in one way. -/
theorem existsUnique_written {suffix : Text} (h : suffix = [] ∨ suffix.head? = some '[') :
    ∃! b : Brackets, b.Written ∧ b.text = suffix := by
  obtain ⟨b, hb, htext⟩ := exists_written h
  exact ⟨b, ⟨hb, htext⟩, fun b' ⟨hb', htext'⟩ => written_unique hb' hb (htext'.trans htext.symm)⟩

/-! ### Characters -/

theorem unbracketed_append (s t : Text) : unbracketed (s ++ t) = unbracketed s ++ unbracketed t :=
  List.filter_append _ _

/-- The segments hold the characters of the brackets. -/
theorem unbracketed_segments (b : Brackets) (pushed : Bool) :
    unbracketed ((b.segments pushed).flatMap RackKeySegment.text) = unbracketed b.text := by
  induction b generalizing pushed with
  | nothing => rfl
  | unclosed piece =>
    by_cases hpiece : piece = []
    · subst hpiece
      rfl
    · simp [segments, text, hpiece, RackKeySegment.text, unbracketed]
  | trailing piece text =>
    by_cases hpiece : piece = []
    · subst hpiece
      cases pushed <;> simp [segments, Brackets.text, RackKeySegment.text, unbracketed]
    · simp [segments, Brackets.text, hpiece, RackKeySegment.text, unbracketed]
  | closed piece next ih =>
    by_cases hpiece : piece = []
    · subst hpiece
      by_cases hfield : pushed = true ∧ next ≠ .nothing
      · simpa [segments, text, hfield, RackKeySegment.text, unbracketed] using ih false
      · simpa [segments, text, hfield, RackKeySegment.text, unbracketed] using ih true
    · simpa [segments, text, hpiece, RackKeySegment.text, unbracketed] using ih false

end Brackets

/-! ### Reading -/

/-- The loop over brackets and what follows it. -/
def segmentsFrom (left : ℕ) (segments : List RackKeySegment) (suffix : Text) :
    Except RackParseError (List RackKeySegment) := do
  let (segments, suffix) ← rackSegments left segments suffix
  let segments := trailingSegment segments suffix
  failIf (decide (segments.length ≥ rackDepthLimit)) .limit
  return segments

theorem rackKey_eq {name : Text} (h : (rackRoot name).1 ≠ []) :
    rackKey name = (segmentsFrom rackDepthLimit [] (rackRoot name).2).map
      fun segments => some ((rackRoot name).1, segments) := by
  rw [rackKey, segmentsFrom]
  simp only [List.isEmpty_iff, h, if_false]
  cases rackSegments rackDepthLimit [] (rackRoot name).2 with
  | error e => rfl
  | ok found =>
    simp only [ok_bind]
    cases failIf (decide ((trailingSegment found.1 found.2).length ≥ rackDepthLimit)) RackParseError.limit <;> rfl

/-- Segments within the limit. -/
def withinLimit (segments : List RackKeySegment) : Except RackParseError (List RackKeySegment) :=
  if rackDepthLimit ≤ segments.length then .error .limit else .ok segments

theorem length_trailingSegment (segments : List RackKeySegment) (suffix : Text) :
    segments.length ≤ (trailingSegment segments suffix).length := by
  rw [trailingSegment]
  split_ifs with hempty
  · exact le_rfl
  · split
    · simp
    · rename_i hlast
      obtain ⟨init, rfl⟩ := List.getLast?_eq_some_iff.mp hlast
      simp
    · exact le_rfl

/-- Behind the brackets only the text that is left is read. -/
theorem segmentsFrom_end {left : ℕ} {segments : List RackKeySegment} {suffix : Text}
    (hleft : left + segments.length = rackDepthLimit) (h : suffix.head? ≠ some '[') :
    segmentsFrom left segments suffix = withinLimit (trailingSegment segments suffix) := by
  have hlength := length_trailingSegment segments suffix
  cases left with
  | zero =>
    rw [withinLimit, if_pos (by omega)]
    rfl
  | succ left =>
    rw [segmentsFrom, rackSegments_end h, withinLimit]
    simp only [ok_bind]
    split_ifs with hlimit
    · simp [failIf, hlimit]
    · simp [failIf, hlimit]

theorem trailingSegment_nil (segments : List RackKeySegment) : trailingSegment segments [] = segments :=
  rfl

theorem segmentsFrom_bracket (left : ℕ) (segments : List RackKeySegment) {piece rest remaining : Text}
    (h : (splitOnce [']'] rest).getD (rest, []) = (piece, remaining)) :
    segmentsFrom (left + 1) segments ('[' :: rest) =
      segmentsFrom left (segments ++ [bracketSegment segments piece remaining]) remaining := by
  rw [segmentsFrom, rackSegments_bracket, h]
  rfl

theorem segmentsFrom_zero {segments : List RackKeySegment} (h : rackDepthLimit ≤ segments.length)
    (suffix : Text) (more : List RackKeySegment) :
    segmentsFrom 0 segments suffix = withinLimit (segments ++ more) := by
  rw [withinLimit, if_pos (by rw [List.length_append]; omega)]
  rfl

/-- The loop reads what is written. -/
theorem segmentsFrom_text {b : Brackets} (h : b.Written) {left : ℕ} {segments : List RackKeySegment}
    (hleft : left + segments.length = rackDepthLimit) {pushed : Bool}
    (hpushed : pushed = true ↔ segments.getLast? = some .push) :
    segmentsFrom left segments b.text = withinLimit (segments ++ b.segments pushed) := by
  induction b generalizing left segments pushed with
  | nothing =>
    rw [Brackets.text, segmentsFrom_end hleft (by simp), trailingSegment_nil, Brackets.segments,
      List.append_nil]
  | unclosed piece =>
    cases left with
    | zero => exact segmentsFrom_zero (by omega) _ _
    | succ left =>
      have hcut : (splitOnce [']'] piece).getD (piece, []) = (piece, []) := by
        rw [Brackets.splitOnce_unclosed h, Option.getD_none]
      have hnext : left + (segments ++ [bracketSegment segments piece []]).length = rackDepthLimit := by
        rw [List.length_append, List.length_singleton]
        omega
      have hsegment : [bracketSegment segments piece []] = (Brackets.unclosed piece).segments pushed := by
        by_cases hpiece : piece = [] <;> simp [bracketSegment, Brackets.segments, hpiece]
      rw [Brackets.text, segmentsFrom_bracket left segments hcut, segmentsFrom_end hnext (by simp),
        trailingSegment_nil, hsegment]
  | trailing piece text =>
    obtain ⟨hpiece, htext, hstart⟩ := h
    cases left with
    | zero => exact segmentsFrom_zero (by omega) _ _
    | succ left =>
      have hcut : (splitOnce [']'] (piece ++ ']' :: text)).getD (piece ++ ']' :: text, []) =
          (piece, text) := by
        rw [splitOnce_separator hpiece, Option.getD_some]
      have hnext : left + (segments ++ [bracketSegment segments piece text]).length = rackDepthLimit := by
        rw [List.length_append, List.length_singleton]
        omega
      have hsegment : trailingSegment (segments ++ [bracketSegment segments piece text]) text =
          segments ++ (Brackets.trailing piece text).segments pushed := by
        by_cases hempty : piece = []
        · cases pushed <;>
            simp_all [bracketSegment, Brackets.segments, trailingSegment]
        · simp [bracketSegment, Brackets.segments, trailingSegment, hempty, htext]
      rw [Brackets.text, segmentsFrom_bracket left segments hcut, segmentsFrom_end hnext hstart, hsegment]
  | closed piece next ih =>
    obtain ⟨hpiece, hwritten⟩ := h
    cases left with
    | zero => exact segmentsFrom_zero (by omega) _ _
    | succ left =>
      have hcut : (splitOnce [']'] (piece ++ ']' :: next.text)).getD (piece ++ ']' :: next.text, []) =
          (piece, next.text) := by
        rw [splitOnce_separator hpiece, Option.getD_some]
      have hnext (segment : RackKeySegment) : left + (segments ++ [segment]).length = rackDepthLimit := by
        rw [List.length_append, List.length_singleton]
        omega
      have hread (segment : RackKeySegment) {pushed' : Bool} (hlast : pushed' = true ↔ segment = .push) :
          segmentsFrom left (segments ++ [segment]) next.text =
            withinLimit (segments ++ segment :: next.segments pushed') := by
        have happend : segments ++ segment :: next.segments pushed' =
            segments ++ [segment] ++ next.segments pushed' := List.append_cons _ _ _
        rw [happend]
        exact ih hwritten (hnext segment) (by simpa using hlast)
      rw [Brackets.text, segmentsFrom_bracket left segments hcut]
      by_cases hempty : piece = []
      · subst hempty
        by_cases hfield : pushed = true ∧ next ≠ .nothing
        · have hsegment : bracketSegment segments [] next.text = .field ['[', ']'] := by
            simp [bracketSegment, Brackets.text_eq_nil, hfield.2, hpushed.mp hfield.1]
          have hwhole : (Brackets.closed [] next).segments pushed =
              .field ['[', ']'] :: next.segments false := by
            simp [Brackets.segments, hfield]
          rw [hsegment, hwhole]
          exact hread _ (by simp)
        · have hsegment : bracketSegment segments [] next.text = .push := by
            rw [bracketSegment, if_pos List.isEmpty_nil, if_neg]
            simpa [Brackets.text_eq_nil, ← hpushed, and_comm] using hfield
          have hwhole : (Brackets.closed [] next).segments pushed = .push :: next.segments true := by
            simp [Brackets.segments, hfield]
          rw [hsegment, hwhole]
          exact hread _ (by simp)
      · have hsegment : bracketSegment segments piece next.text = .field piece := by
          simp [bracketSegment, hempty]
        have hwhole : (Brackets.closed piece next).segments pushed =
            .field piece :: next.segments false := by
          simp [Brackets.segments, hempty]
        rw [hsegment, hwhole]
        exact hread _ (by simp)

/-! ### Roots -/

theorem dropWhile_started (rest : Text) :
    rest.dropWhile (· ≠ '[') = [] ∨ (rest.dropWhile (· ≠ '[')).head? = some '[' := by
  induction rest with
  | nil => exact .inl rfl
  | cons c rest ih =>
    by_cases hc : c = '['
    · simp [hc]
    · simpa [hc] using ih

theorem takeWhile_of_not_mem {rest : Text} (h : '[' ∉ rest) :
    rest.takeWhile (· ≠ '[') = rest ∧ rest.dropWhile (· ≠ '[') = [] := by
  have hall : ∀ c ∈ rest, decide (c ≠ '[') = true := fun c hc =>
    decide_eq_true fun heq => h (heq ▸ hc)
  exact ⟨List.takeWhile_eq_self_iff.mpr hall, List.dropWhile_eq_nil_iff.mpr hall⟩

theorem rackRoot_of_oneByte {c : Char} (h : c.utf8Size = 1) (rest : Text) :
    rackRoot (c :: rest) = (c :: rest.takeWhile (· ≠ '['), rest.dropWhile (· ≠ '[')) := by
  rw [rackRoot, if_pos h]
  cases hsplit : splitOnce ['['] rest with
  | none =>
    obtain ⟨htake, hdrop⟩ := takeWhile_of_not_mem (not_mem_of_splitOnce_none hsplit)
    rw [htake, hdrop]
  | some cut =>
    obtain ⟨before, after⟩ := cut
    obtain ⟨htake, hdrop⟩ := takeWhile_of_not_mem (not_mem_splitOnce hsplit)
    have hrest : rest = before ++ '[' :: after := by simpa using splitOnce_eq_some hsplit
    have hall : ∀ c ∈ before, decide (c ≠ '[') = true := List.takeWhile_eq_self_iff.mp htake
    rw [hrest, List.takeWhile_append_of_pos hall, List.dropWhile_append_of_pos hall]
    simp

/-- Where nothing is behind the root, or the first character is one byte, the root is what precedes
    the first bracket behind that character. -/
theorem rackRoot_eq {c : Char} {rest : Text} (h : '[' ∈ rest → c.utf8Size = 1) :
    rackRoot (c :: rest) = (c :: rest.takeWhile (· ≠ '['), rest.dropWhile (· ≠ '[')) := by
  by_cases hsize : c.utf8Size = 1
  · exact rackRoot_of_oneByte hsize rest
  · obtain ⟨htake, hdrop⟩ := takeWhile_of_not_mem fun hmem => hsize (h hmem)
    rw [rackRoot, if_neg hsize, htake, hdrop]

theorem rackKey_written {c : Char} {rest : Text} (h : '[' ∈ rest → c.utf8Size = 1) {b : Brackets}
    (hb : b.Written) (htext : b.text = rest.dropWhile (· ≠ '[')) :
    rackKey (c :: rest) = (withinLimit (b.segments false)).map
      fun segments => some (c :: rest.takeWhile (· ≠ '['), segments) := by
  have hroot := rackRoot_eq h
  have hread : segmentsFrom rackDepthLimit [] b.text = withinLimit ([] ++ b.segments false) :=
    segmentsFrom_text hb (Nat.add_zero rackDepthLimit) (by simp)
  rw [rackKey_eq (by rw [hroot]; exact nofun), hroot, ← htext, hread, List.nil_append]

/-- Without a byte for the bracket to be behind, all of a name is its root. -/
theorem rackKey_wide {c : Char} (h : c.utf8Size ≠ 1) (rest : Text) :
    rackKey (c :: rest) = .ok (some (c :: rest, [])) := by
  rw [rackKey, rackRoot, if_neg h]
  rfl

theorem oneByte_of_readAsWritten {c : Char} {rest : Text} (h : ReadAsWritten (c :: rest))
    (hbracket : '[' ∈ rest) : c.utf8Size = 1 := by
  obtain ⟨b, -, -, hlimit, hread, -⟩ := h
  by_contra hwide
  rw [rackKey_wide hwide] at hlimit hread
  have hwithin : (b.segments false).length < rackDepthLimit := by
    by_contra hover
    exact absurd (hlimit.mpr (Nat.not_lt.mp hover)) nofun
  have hroot := (Prod.mk.inj (Option.some.inj (Except.ok.inj (hread hwithin)))).1
  have hwhole : rest = rest.takeWhile (· ≠ '[') := (List.cons.inj hroot).2
  have hall := List.takeWhile_eq_self_iff.mp hwhole.symm
  simpa using hall '[' hbracket

/-- CORRECT (names): a name is read as it is written exactly where its first character is one byte or
    no opening bracket stands behind it. -/
theorem readAsWritten_iff (name : Text) :
    ReadAsWritten name ↔ ('[' ∈ name.tail → ∀ c ∈ name.head?, c.utf8Size = 1) := by
  cases name with
  | nil => simp [ReadAsWritten, rackKey, rackRoot]
  | cons c rest =>
    constructor
    · intro h hbracket d hd
      obtain rfl := Option.some.inj hd
      exact oneByte_of_readAsWritten h hbracket
    · intro h
      have hsize : '[' ∈ rest → c.utf8Size = 1 := fun hmem => h hmem c rfl
      obtain ⟨b, ⟨hb, htext⟩, -⟩ := Brackets.existsUnique_written (dropWhile_started rest)
      have hkey := rackKey_written hsize hb htext
      refine ⟨b, hb, htext, ?_, ?_, ?_⟩
      · rw [hkey, withinLimit]
        split_ifs with hover
        · exact iff_of_true rfl hover
        · exact iff_of_false (by rintro ⟨⟩) hover
      · intro hwithin
        rw [hkey, withinLimit, if_neg (by omega)]
        rfl
      · intro root segments hok
        rw [hkey, withinLimit] at hok
        split_ifs at hok with hover
        · cases hok
        obtain ⟨rfl, rfl⟩ := Prod.mk.inj (Option.some.inj (Except.ok.inj hok))
        rw [Brackets.unbracketed_append, Brackets.unbracketed_segments, htext,
          ← Brackets.unbracketed_append, List.cons_append, List.takeWhile_append_dropWhile]

/-- A letter of two bytes hides the bracket behind it. -/
theorem not_readAsWritten_wide : ¬ ∀ name, ReadAsWritten name := by
  intro h
  have hsize : Char.utf8Size 'é' = 1 :=
    oneByte_of_readAsWritten (h ['é', '[', 'a', ']']) (by decide)
  exact absurd hsize (by decide)

end Rustodon.Web
