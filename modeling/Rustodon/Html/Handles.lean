import Rustodon.Html.StatusText

/-! @src mastodon/write_repository.rs, mastodon/rest/html.rs | name:Handles and hashtags in a text |
    scheme:scanners | family:html

    The two recognisers read handles by the same rules, but not with the same classes of characters.
    What each of them finds is told by the places of a text, without its jumps. -/

namespace Rustodon.Html
open Schemes.Utf8 Schemes.Scanner

/-! ### Handles -/

/-- The classes of characters by which handles are read. -/
structure Grammar where
  /-- A handle may not follow such a character. -/
  blocks : Char → Bool
  nameChar : Char → Bool
  domainChar : Char → Bool

/-- A sign inside of a handle starts no other one. -/
structure Grammar.Closed (g : Grammar) : Prop where
  name : g.nameChar '@' = false
  domain : g.domainChar '@' = false
  blocks : ∀ c, g.nameChar c = true → g.blocks c = true

/-- The handles of the writer. -/
def storedGrammar : Grammar := ⟨isUsernameByte, isUsernameByte, isDomainByte⟩

/-- The handles of the formatter. -/
def linkedGrammar (f : HtmlFormatter) : Grammar := ⟨isNameChar f, isNameChar f, isDomainChar f⟩

variable (g : Grammar)

def Grammar.readDomain (rest : Text) : Option Text :=
  match rest with
  | '@' :: rest =>
    let domain := rest.takeWhile g.domainChar
    if domain.isEmpty then none else some domain
  | _ => none

/-- Reads a handle behind its sign. -/
def Grammar.read (before : Option Char) (rest : Text) : Option Candidate :=
  if before.any g.blocks then none
  else
    let username := rest.takeWhile g.nameChar
    if username.isEmpty then none
    else some (username, g.readDomain (rest.dropWhile g.nameChar))

/-- What ends a domain, or shows that there is none. -/
def Grammar.DomainRun : Option Text → Text → Prop
  | none, after => ∀ c rest, after = '@' :: c :: rest → g.domainChar c = false
  | some domain, after => domain ≠ [] ∧ IsRun g.domainChar domain after

/-- The text has the handle somewhere: a sign that follows no blocking character, a longest name, and
    behind a second sign a longest domain, if there is one. -/
def Grammar.Spells (text username : Text) (domain : Option Text) : Prop :=
  ∃ before after, text = before ++ '@' :: (username ++ (domainText domain ++ after)) ∧
    (∀ c ∈ before.getLast?, g.blocks c = false) ∧ username ≠ [] ∧
    IsRun g.nameChar username (domainText domain ++ after) ∧ g.DomainRun domain after

variable {g}

theorem readDomain_spec (rest : Text) :
    ∃ after, rest = domainText (g.readDomain rest) ++ after ∧
      g.DomainRun (g.readDomain rest) after := by
  unfold Grammar.readDomain
  split
  · rename_i rest
    by_cases hempty : rest.takeWhile g.domainChar = []
    · rw [hempty]
      refine ⟨'@' :: rest, rfl, ?_⟩
      intro c more hmore
      obtain ⟨-, rfl⟩ := List.cons.inj hmore
      by_contra hc
      rw [Bool.not_eq_false] at hc
      rw [List.takeWhile_cons_of_pos hc] at hempty
      cases hempty
    · have hne : (rest.takeWhile g.domainChar).isEmpty = false := by simpa using hempty
      simp only [hne]
      refine ⟨rest.dropWhile g.domainChar, ?_, hempty, takeWhile_isRun _ _⟩
      simp [domainText]
  · rename_i hnone
    refine ⟨rest, rfl, ?_⟩
    rintro c more rfl
    exact absurd rfl (hnone (c :: more))

theorem readDomain_eq {domain : Option Text} {after : Text} (h : g.DomainRun domain after)
    (hstart : domain = none → ∀ rest, after = '@' :: rest → ∀ c ∈ rest.head?, g.domainChar c = false) :
    g.readDomain (domainText domain ++ after) = domain := by
  cases domain with
  | none =>
    rw [domainText, Option.elim_none, List.nil_append]
    unfold Grammar.readDomain
    split
    · rename_i rest
      have hhead := hstart rfl rest rfl
      have hempty : rest.takeWhile g.domainChar = [] := by
        cases rest with
        | nil => rfl
        | cons c rest => exact List.takeWhile_cons_of_neg (by simp [hhead c rfl])
      simp [hempty]
    · rfl
  | some domain =>
    obtain ⟨hne, hrun⟩ := h
    have hnonempty : domain.isEmpty = false := by simpa using hne
    simp [domainText, Grammar.readDomain, hrun.takeWhile_eq.1, hnonempty]

theorem Grammar.DomainRun.head {after : Text} (h : g.DomainRun none after) :
    ∀ rest, after = '@' :: rest → ∀ c ∈ rest.head?, g.domainChar c = false := by
  rintro rest rfl c hc
  cases rest with
  | nil => cases hc
  | cons c' rest =>
    obtain rfl := Option.some.inj hc
    exact h c' rest rfl

theorem read_eq_some {before : Option Char} {rest username : Text} {domain : Option Text} :
    g.read before rest = some (username, domain) ↔
      (∀ c ∈ before, g.blocks c = false) ∧ username ≠ [] ∧
        ∃ after, rest = username ++ (domainText domain ++ after) ∧
          IsRun g.nameChar username (domainText domain ++ after) ∧ g.DomainRun domain after := by
  constructor
  · intro h
    rw [Grammar.read] at h
    split at h
    · cases h
    rename_i hblocked
    dsimp only at h
    split at h
    · cases h
    rename_i hempty
    obtain ⟨rfl, rfl⟩ := Prod.mk.inj (Option.some.inj h)
    obtain ⟨after, hafter, hdomain⟩ := @readDomain_spec g (rest.dropWhile g.nameChar)
    refine ⟨?_, by simpa using hempty, after, ?_, ?_, hdomain⟩
    · intro c hc
      obtain rfl := Option.mem_def.mp hc
      simpa using hblocked
    · rw [← hafter, List.takeWhile_append_dropWhile]
    · rw [← hafter]
      exact takeWhile_isRun _ _
  · rintro ⟨hblocks, hne, after, rfl, hrun, hdomain⟩
    have hblocked : before.any g.blocks = false := by
      cases before with
      | none => rfl
      | some c => exact hblocks c rfl
    have hname : username.isEmpty = false := by simpa using hne
    have hread := readDomain_eq hdomain fun hnone => by
      subst hnone
      exact hdomain.head
    rw [Grammar.read, hblocked, if_neg Bool.false_ne_true]
    simp only [hrun.takeWhile_eq.1, hrun.takeWhile_eq.2, hname, hread]
    rfl

/-- The reader of a scanner for handles. -/
def Grammar.reader (g : Grammar) : Reader Char Candidate := fun before c rest =>
  if c = '@' then
    (g.read before rest).map fun handle => (handle, (handle.1 ++ domainText handle.2).length)
  else none

theorem occurs_reader {text : Text} {username : Text} {domain : Option Text} :
    Occurs g.reader [] text (username, domain) ↔ g.Spells text username domain := by
  constructor
  · rintro ⟨before, c, rest, n, rfl, hread⟩
    unfold Grammar.reader at hread
    split at hread
    · rename_i hat
      obtain ⟨handle, hread, hhandle⟩ := Option.map_eq_some_iff.mp hread
      obtain ⟨rfl, -⟩ := Prod.mk.inj hhandle
      obtain ⟨hblocks, hne, after, rfl, hrun, hdomain⟩ := read_eq_some.mp hread
      exact ⟨before, after, by rw [hat], hblocks, hne, hrun, hdomain⟩
    · cases hread
  · rintro ⟨before, after, rfl, hblocks, hne, hrun, hdomain⟩
    refine ⟨before, '@', _, (username ++ domainText domain).length, rfl, ?_⟩
    have hread := (@read_eq_some g before.getLast? _ username domain).mpr
      ⟨hblocks, hne, after, rfl, hrun, hdomain⟩
    rw [Grammar.reader, if_pos rfl, List.nil_append, hread]
    rfl

/-- No character of a handle but its second sign is a sign. -/
theorem mem_handle {username : Text} {domain : Option Text} {after : Text}
    (hrun : IsRun g.nameChar username (domainText domain ++ after)) (hdomain : g.DomainRun domain after)
    {c : Char} (hc : c ∈ username ++ domainText domain) :
    c = '@' ∨ g.nameChar c = true ∨ g.domainChar c = true := by
  rcases List.mem_append.mp hc with hc | hc
  · exact .inr (.inl (hrun.1 c hc))
  cases domain with
  | none => cases hc
  | some domain =>
    rcases List.mem_cons.mp hc with rfl | hc
    · exact .inl rfl
    · exact .inr (.inr (hdomain.2.1 c hc))

/-- At the second sign of a handle nothing is read, because a character of its name is before it. -/
theorem read_inside (hclosed : g.Closed) {username : Text} {domain : Option Text} {after : Text}
    (hne : username ≠ []) (hrun : IsRun g.nameChar username (domainText domain ++ after))
    (hdomain : g.DomainRun domain after) {inner more : Text} {first : Char}
    (hinner : username ++ domainText domain = inner ++ '@' :: more) (rest : Text) :
    g.read (first :: inner).getLast? rest = none := by
  have hname : '@' ∉ username := by
    intro hat
    exact absurd (hrun.1 '@' hat) (by simp [hclosed.name])
  have heq : inner = username := by
    cases domain with
    | none =>
      have hat : '@' ∈ username := by
        have hmem : '@' ∈ username ++ domainText none := by
          rw [hinner]
          simp
        simpa [domainText] using hmem
      exact absurd hat hname
    | some domain =>
      have hdomainAt : '@' ∉ domain := fun hat =>
        absurd (hdomain.2.1 '@' hat) (by simp [hclosed.domain])
      exact ((List.append_cons_inj_of_notMem hname hdomainAt).mp hinner).1.symm
  have hlast : (first :: inner).getLast? = some (username.getLast hne) := by
    rw [heq, List.getLast?_cons, List.getLast?_eq_some_getLast hne]
    rfl
  have hblocked := hclosed.blocks _ (hrun.1 _ (List.getLast_mem hne))
  rw [Grammar.read, hlast, Option.any_some, hblocked, if_pos rfl]

/-- What is behind a place inside of a run of characters belongs to the run. -/
theorem split_inside {taken after inner rest' : Text} {c : Char}
    (h : taken ++ after = inner ++ c :: rest') (hlength : inner.length < taken.length) :
    ∃ more, taken = inner ++ c :: more := by
  rcases List.append_eq_append_iff.mp h with ⟨more, rfl, -⟩ | ⟨more, rfl, hmore⟩
  · rw [List.length_append] at hlength
    omega
  · cases more with
    | nil => simp at hlength
    | cons c' more =>
      obtain ⟨rfl, -⟩ := List.cons.inj hmore
      exact ⟨more, rfl⟩

theorem reader_skips (hclosed : g.Closed) : Skips g.reader := by
  intro before c rest handle n hread inner c' rest' hrest hlength
  unfold Grammar.reader at hread ⊢
  split at hread
  · obtain ⟨⟨username, domain⟩, hhandle, hfound⟩ := Option.map_eq_some_iff.mp hread
    obtain ⟨rfl, rfl⟩ := Prod.mk.inj hfound
    obtain ⟨-, hne, after, rfl, hrun, hdomain⟩ := read_eq_some.mp hhandle
    rw [← List.append_assoc] at hrest
    obtain ⟨more, hmore⟩ := split_inside hrest hlength
    split
    · rename_i hat
      subst hat
      rw [read_inside hclosed hne hrun hdomain hmore, Option.map_none]
    · rfl
  · cases hread

/-! ### Hashtags -/

/-- The text has the hashtag somewhere: a sign at its start or behind white space, and a longest run
    with a letter in it. -/
def SpellsTag (isTag isAlphabetic : Char → Bool) (text tag : Text) : Prop :=
  ∃ before hash after, text = before ++ hash :: (tag ++ after) ∧ isHash hash = true ∧
    (∀ c ∈ before.getLast?, isWhitespace c = true) ∧ IsRun isTag tag after ∧
    tag.any isAlphabetic = true

/-- The reader of a scanner for hashtags. -/
def tagReader (isTag isAlphabetic : Char → Bool) : Reader Char Text := fun before hash rest =>
  if isHash hash && !before.any fun c => !isWhitespace c then
    if (rest.takeWhile isTag).any isAlphabetic then
      some (rest.takeWhile isTag, (rest.takeWhile isTag).length)
    else none
  else none

theorem occurs_tagReader {isTag isAlphabetic : Char → Bool} {text tag : Text} :
    Occurs (tagReader isTag isAlphabetic) [] text tag ↔ SpellsTag isTag isAlphabetic text tag := by
  constructor
  · rintro ⟨before, hash, rest, n, rfl, hread⟩
    rw [tagReader, List.nil_append] at hread
    split at hread
    · rename_i hplace
      split at hread
      · rename_i hany
        obtain ⟨rfl, -⟩ := Prod.mk.inj (Option.some.inj hread)
        rw [Bool.and_eq_true] at hplace
        refine ⟨before, hash, rest.dropWhile isTag, by rw [List.takeWhile_append_dropWhile],
          hplace.1, ?_, takeWhile_isRun _ _, hany⟩
        intro c hc
        rw [Option.mem_def.mp hc] at hplace
        simpa using hplace.2
      · cases hread
    · cases hread
  · rintro ⟨before, hash, after, rfl, hhash, hspace, hrun, hany⟩
    refine ⟨before, hash, tag ++ after, tag.length, rfl, ?_⟩
    have hbefore : (before.getLast?.any fun c => !isWhitespace c) = false := by
      cases hlast : before.getLast? with
      | none => rfl
      | some c => simp [hspace c hlast]
    rw [tagReader, List.nil_append, hhash, hbefore, hrun.takeWhile_eq.1, if_pos hany]
    rfl

end Rustodon.Html
