import Mathlib.Data.List.Chain
import Rustodon.Web.RackQuery

/-! @src web/request_params.rs | name:The shape of parsed parameters | scheme:nested maps | family:web

    What every parsed value is like: the entries of an object are in the order of their keys, an
    array in an array has nothing but leaves, a root that has brackets in it is a leaf, and there are
    not more leaves than pieces. -/

namespace Rustodon.Web
open Schemes.Checked Schemes.Utf8

/-! ### Maps -/

def RackMap.Sorted (values : RackMap) : Prop := values.Pairwise fun a b => a.1 < b.1

theorem RackMap.mem_insert {key : Text} {value : RackValue} {e : Text × RackValue} :
    ∀ {values : RackMap}, e ∈ values.insert key value → e = (key, value) ∨ e ∈ values
  | [], h => .inl (List.mem_singleton.mp h)
  | (k, v) :: rest, h => by
    rw [RackMap.insert] at h
    split_ifs at h
    · rcases List.mem_cons.mp h with h | h
      · exact .inl h
      · exact .inr (List.mem_cons_of_mem _ h)
    · rcases List.mem_cons.mp h with h | h
      · exact .inl h
      · exact .inr h
    · rcases List.mem_cons.mp h with h | h
      · exact .inr (h ▸ List.mem_cons_self)
      · exact (RackMap.mem_insert h).imp_right (List.mem_cons_of_mem _)

theorem RackMap.sorted_insert {key : Text} {value : RackValue} {values : RackMap}
    (h : values.Sorted) : (values.insert key value).Sorted := by
  induction values with
  | nil => exact List.pairwise_singleton _ _
  | cons e rest ih =>
    obtain ⟨k, v⟩ := e
    obtain ⟨hhead, hrest⟩ := List.pairwise_cons.mp h
    rw [RackMap.insert]
    split_ifs with heq hlt
    · subst heq
      exact List.pairwise_cons.mpr ⟨hhead, hrest⟩
    · refine List.pairwise_cons.mpr ⟨fun e he => ?_, h⟩
      rcases List.mem_cons.mp he with rfl | he
      · exact hlt
      · exact hlt.trans (hhead e he)
    · refine List.pairwise_cons.mpr ⟨fun e he => ?_, ih hrest⟩
      rcases RackMap.mem_insert he with rfl | he
      · exact lt_of_le_of_ne (not_lt.mp hlt) heq
      · exact hhead e he

theorem RackMap.mem_of_get {key : Text} {value : RackValue} {values : RackMap}
    (h : values.get key = some value) : (key, value) ∈ values := by
  obtain ⟨before, after, heq, -⟩ := List.lookup_eq_some_iff.mp h
  rw [heq]
  exact List.mem_append_right before List.mem_cons_self

theorem RackMap.sorted_split {before after : RackMap} (h : RackMap.Sorted (before ++ after)) :
    RackMap.Sorted before ∧ RackMap.Sorted after ∧ ∀ e ∈ before, ∀ e' ∈ after, e.1 < e'.1 :=
  List.pairwise_append.mp h

/-- An entry is replaced, or put between the others. -/
theorem RackMap.insert_cases {values : RackMap} (h : values.Sorted) (key : Text) (value : RackValue) :
    (∃ before old after, values = before ++ (key, old) :: after ∧ values.get key = some old ∧
      values.insert key value = before ++ (key, value) :: after) ∨
    ∃ before after, values = before ++ after ∧ values.get key = none ∧
      values.insert key value = before ++ (key, value) :: after := by
  induction values with
  | nil => exact .inr ⟨[], [], rfl, rfl, rfl⟩
  | cons e rest ih =>
    obtain ⟨k, v⟩ := e
    obtain ⟨hhead, hrest⟩ := List.pairwise_cons.mp h
    rw [RackMap.insert]
    split_ifs with heq hlt
    · subst heq
      exact .inl ⟨[], v, rest, rfl, by simp [RackMap.get], rfl⟩
    · refine .inr ⟨[], (k, v) :: rest, rfl, ?_, rfl⟩
      rw [RackMap.get, List.lookup_eq_none_iff]
      intro e he
      rcases List.mem_cons.mp he with rfl | he
      · simpa using hlt.ne
      · simpa using (hlt.trans (hhead e he)).ne
    · have hget : RackMap.get ((k, v) :: rest) key = RackMap.get rest key := by
        have hne : (key == k) = false := by simpa using fun h => heq h.symm
        rw [RackMap.get, List.lookup_cons, hne]
        rfl
      rw [hget]
      rcases ih hrest with ⟨before, old, after, rfl, hold, hinsert⟩ | ⟨before, after, rfl, hnone, hinsert⟩
      · exact .inl ⟨(k, v) :: before, old, after, rfl, hold, congrArg _ hinsert⟩
      · exact .inr ⟨(k, v) :: before, after, rfl, hnone, congrArg _ hinsert⟩

/-! ### Paths -/

/-- The segments of a name: nothing follows a second push or a trailing one. -/
def IsPath : List RackKeySegment → Prop
  | [] => True
  | .field key :: rest => key ≠ [] ∧ IsPath rest
  | .trailingPush key :: rest => key ≠ [] ∧ rest = []
  | .push :: rest =>
    (rest = [] ∨ rest = [.push] ∨ ∃ key rest', rest = .field key :: rest') ∧ IsPath rest

/-- Segments that others may follow. -/
structure Open (segments : List RackKeySegment) : Prop where
  plain : ∀ segment ∈ segments, segment = .push ∨ ∃ key, key ≠ [] ∧ segment = .field key
  chain : segments.IsChain fun a b => ¬ (a = .push ∧ b = .push)

theorem open_nil : Open [] := ⟨nofun, .nil⟩

theorem Open.concat {segments : List RackKeySegment} (h : Open segments) {segment : RackKeySegment}
    (hplain : segment = .push ∨ ∃ key, key ≠ [] ∧ segment = .field key)
    (hlast : segments.getLast? = some .push → segment ≠ .push) : Open (segments ++ [segment]) := by
  constructor
  · intro s hs
    rcases List.mem_append.mp hs with hs | hs
    · exact h.plain s hs
    · obtain rfl := List.mem_singleton.mp hs
      exact hplain
  · refine List.isChain_append.mpr ⟨h.chain, List.isChain_singleton _, ?_⟩
    rintro a ha b hb ⟨rfl, rfl⟩
    obtain rfl := Option.some.inj hb
    exact hlast ha rfl

theorem Open.tail {segment : RackKeySegment} {segments : List RackKeySegment}
    (h : Open (segment :: segments)) : Open segments :=
  ⟨fun s hs => h.plain s (List.mem_cons_of_mem _ hs), h.chain.tail⟩

/-- What may end a path. -/
theorem Open.isPath {segments last : List RackKeySegment} (h : Open segments)
    (hlast : last = [] ∨ last = [.push] ∨
      ∃ key, key ≠ [] ∧ last = [.trailingPush key] ∧ segments.getLast? ≠ some .push) :
    IsPath (segments ++ last) := by
  induction segments with
  | nil =>
    rcases hlast with rfl | rfl | ⟨key, hkey, rfl, -⟩
    · trivial
    · exact ⟨.inl rfl, trivial⟩
    · exact ⟨hkey, rfl⟩
  | cons segment segments ih =>
    have hrest : IsPath (segments ++ last) := by
      refine ih h.tail (hlast.imp_right fun hlast => hlast.imp_right ?_)
      rintro ⟨key, hkey, rfl, hpush⟩
      refine ⟨key, hkey, rfl, fun hsegments => hpush ?_⟩
      rw [List.getLast?_cons, hsegments]
      rfl
    rcases h.plain segment List.mem_cons_self with rfl | ⟨key, hkey, rfl⟩
    · refine ⟨?_, hrest⟩
      cases segments with
      | nil =>
        rcases hlast with rfl | rfl | ⟨key, hkey, rfl, hpush⟩
        · exact .inl rfl
        · exact .inr (.inl rfl)
        · exact absurd rfl hpush
      | cons next segments =>
        rcases h.plain next (List.mem_cons_of_mem _ List.mem_cons_self) with rfl | ⟨key, -, rfl⟩
        · exact absurd ⟨rfl, rfl⟩ (List.isChain_cons_cons.mp h.chain).1
        · exact .inr (.inr ⟨key, _, rfl⟩)
    · exact ⟨hkey, hrest⟩

theorem rackSegments_bracket (left : ℕ) (segments : List RackKeySegment) (rest : Text) :
    rackSegments (left + 1) segments ('[' :: rest) =
      rackSegments left
        (segments ++ [bracketSegment segments ((splitOnce [']'] rest).getD (rest, [])).1
          ((splitOnce [']'] rest).getD (rest, [])).2])
        ((splitOnce [']'] rest).getD (rest, [])).2 := rfl

theorem rackSegments_end {left : ℕ} {segments : List RackKeySegment} {suffix : Text}
    (h : suffix.head? ≠ some '[') : rackSegments (left + 1) segments suffix = .ok (segments, suffix) := by
  cases suffix with
  | nil => rfl
  | cons c suffix =>
    rw [rackSegments]
    rintro rest heq
    exact h (congrArg List.head? heq)

theorem rackSegments_open {left : ℕ} {segments segments' : List RackKeySegment}
    {suffix suffix' : Text} (hopen : Open segments)
    (h : rackSegments left segments suffix = .ok (segments', suffix')) :
    Open segments' ∨ suffix' = [] ∧ ∃ init, Open init ∧ segments' = init ++ [.push] := by
  induction left generalizing segments suffix with
  | zero => cases h
  | succ left ih =>
    by_cases hbracket : suffix.head? = some '['
    · obtain ⟨rest, rfl⟩ := List.head?_eq_some_iff.mp hbracket
      rw [rackSegments_bracket] at h
      generalize (splitOnce [']'] rest).getD (rest, []) = cut at h
      obtain ⟨name, remaining⟩ := cut
      simp only [bracketSegment] at h
      by_cases hname : name.isEmpty = true
      · rw [if_pos hname] at h
        split_ifs at h with hpush
        · exact ih (hopen.concat (.inr ⟨['[', ']'], by decide, rfl⟩) fun _ => nofun) h
        · by_cases hlast : segments.getLast? = some .push
          · -- A second push is the last segment.
            have hremaining : remaining = [] := by
              simpa [hlast] using hpush
            subst hremaining
            cases left with
            | zero => cases h
            | succ left =>
              obtain ⟨rfl, rfl⟩ := Prod.mk.inj (Except.ok.inj h)
              exact .inr ⟨rfl, segments, hopen, rfl⟩
          · exact ih (hopen.concat (.inl rfl) fun h' => absurd h' hlast) h
      · rw [if_neg hname] at h
        have hname : name ≠ [] := by simpa using hname
        exact ih (hopen.concat (.inr ⟨name, hname, rfl⟩) fun _ => nofun) h
    · rw [rackSegments_end hbracket] at h
      obtain ⟨rfl, rfl⟩ := Prod.mk.inj (Except.ok.inj h)
      exact .inl hopen

/-- The segments of every name are a path. -/
theorem trailingSegment_isPath {segments : List RackKeySegment} {suffix : Text}
    (h : Open segments ∨ suffix = [] ∧ ∃ init, Open init ∧ segments = init ++ [.push]) :
    IsPath (trailingSegment segments suffix) := by
  rcases h with h | ⟨rfl, init, hinit, rfl⟩
  · rw [trailingSegment]
    split_ifs with hempty
    · simpa using h.isPath (.inl rfl)
    · have hsuffix : suffix ≠ [] := by simpa using hempty
      have hsegments : IsPath segments := by simpa using h.isPath (.inl rfl)
      split
      · have hopen : Open (segments ++ [.field suffix]) :=
          h.concat (.inr ⟨suffix, hsuffix, rfl⟩) fun _ => nofun
        simpa using hopen.isPath (.inl rfl)
      · rename_i hlast
        obtain ⟨init, rfl⟩ := List.getLast?_eq_some_iff.mp hlast
        rw [List.dropLast_concat]
        have hchain := List.isChain_append.mp h.chain
        have hinit : Open init :=
          ⟨fun s hs => h.plain s (List.mem_append_left _ hs), hchain.1⟩
        refine hinit.isPath (.inr (.inr ⟨suffix, hsuffix, rfl, fun hpush => ?_⟩))
        exact hchain.2.2 .push hpush .push rfl ⟨rfl, rfl⟩
      · exact hsegments
  · exact hinit.isPath (.inr (.inl rfl))

/-! ### What an insertion does -/

section Insert

variable {value target target' : RackValue} {key : Text} {rest : List RackKeySegment}

theorem insertRackValue_field
    (h : insertRackValue value (.field key :: rest) target = .ok target') :
    ∃ values entry, target = .object values ∧ target' = .object (RackMap.insert key entry values) ∧
      (rest = [] ∧ entry = value ∨ ∃ next rest', rest = next :: rest' ∧
        insertRackValue value rest ((RackMap.get values key).getD (expectedFor next)) = .ok entry) := by
  cases target with
  | object values =>
    cases rest with
    | nil => exact ⟨values, value, rfl, (Except.ok.inj h).symm, .inl ⟨rfl, rfl⟩⟩
    | cons next rest =>
      obtain ⟨entry, hentry, h⟩ := bind_eq_ok h
      exact ⟨values, entry, rfl, (Except.ok.inj h).symm, .inr ⟨next, rest, rfl, hentry⟩⟩
  | _ => cases h

theorem insertRackValue_trailing
    (h : insertRackValue value (.trailingPush key :: rest) target = .ok target') :
    ∃ values init last, target = .array values ∧
      (values = init ∧ last = [] ∨ values = init ++ [.object last]) ∧
      target' = .array (init ++ [.object (RackMap.insert key value last)]) := by
  cases target with
  | array values =>
    rw [insertRackValue] at h
    split at h
    · rename_i last hlast
      obtain ⟨init, rfl⟩ := List.getLast?_eq_some_iff.mp hlast
      rw [List.dropLast_concat] at h
      split_ifs at h
      · exact ⟨_, _, [], rfl, .inl ⟨rfl, rfl⟩, (Except.ok.inj h).symm⟩
      · exact ⟨_, init, last, rfl, .inr rfl, (Except.ok.inj h).symm⟩
    · exact ⟨_, _, [], rfl, .inl ⟨rfl, rfl⟩, (Except.ok.inj h).symm⟩
  | _ => cases h

/-- A push adds a value or a container, or goes on in the last container. -/
theorem insertRackValue_push (h : insertRackValue value (.push :: rest) target = .ok target') :
    ∃ values, target = .array values ∧
      (rest = [] ∧ target' = .array (values ++ [value]) ∨ rest = [.push] ∧ target' = target ∨
        ∃ next rest' init start last, rest = next :: rest' ∧
          (values = init ∧ start = expectedFor next ∨ values = init ++ [start]) ∧
          insertRackValue value rest start = .ok last ∧ target' = .array (init ++ [last])) := by
  cases target with
  | array values =>
    refine ⟨values, rfl, ?_⟩
    cases rest with
    | nil => exact .inl ⟨rfl, (Except.ok.inj h).symm⟩
    | cons next rest =>
      -- Every other branch inserts into a new container or into the last one.
      have hnested : ∀ {target'}, (do
          let nested ← insertRackValue value (next :: rest) (expectedFor next)
          return RackValue.array (values ++ [nested])) = .ok target' →
          ∃ next' rest' init start last, next :: rest = next' :: rest' ∧
            (values = init ∧ start = expectedFor next' ∨ values = init ++ [start]) ∧
            insertRackValue value (next :: rest) start = .ok last ∧
              target' = .array (init ++ [last]) := by
        intro target' h
        obtain ⟨nested, hnested, h⟩ := bind_eq_ok h
        exact ⟨next, rest, values, _, nested, rfl, .inl ⟨rfl, rfl⟩, hnested, (Except.ok.inj h).symm⟩
      have hlast : ∀ {start target'}, values.getLast? = some start → (do
          let last ← insertRackValue value (next :: rest) start
          return RackValue.array (values.dropLast ++ [last])) = .ok target' →
          ∃ next' rest' init start last, next :: rest = next' :: rest' ∧
            (values = init ∧ start = expectedFor next' ∨ values = init ++ [start]) ∧
            insertRackValue value (next :: rest) start = .ok last ∧
              target' = .array (init ++ [last]) := by
        intro start target' hstart h
        obtain ⟨init, rfl⟩ := List.getLast?_eq_some_iff.mp hstart
        rw [List.dropLast_concat] at h
        obtain ⟨last, hlast, h⟩ := bind_eq_ok h
        exact ⟨next, rest, init, start, last, rfl, .inr rfl, hlast, (Except.ok.inj h).symm⟩
      rw [insertRackValue.eq_def] at h
      simp only at h
      split at h
      · rename_i hgetLast
        split_ifs at h
        · exact .inr (.inr (hnested h))
        · exact .inr (.inr (hlast hgetLast h))
      · split_ifs at h with hrest
        · exact .inr (.inl ⟨hrest, (Except.ok.inj h).symm⟩)
        · exact .inr (.inr (hnested h))
      · rename_i hgetLast
        exact .inr (.inr (hlast hgetLast h))
      · exact .inr (.inr (hnested h))
  | _ => cases h

end Insert

/-! ### Well-formed values -/

def RackValue.IsLeaf (value : RackValue) : Prop := value = .null ∨ ∃ text, value = .scalar text

/-- Not an array with other arrays or objects in it. -/
def Flat (value : RackValue) : Prop := ∀ inner, value = .array inner → ∀ v ∈ inner, v.IsLeaf

inductive Wf : RackValue → Prop
  | null : Wf .null
  | scalar (text : Text) : Wf (.scalar text)
  | array {values : List RackValue} : (∀ v ∈ values, Wf v) → (∀ v ∈ values, Flat v) →
      Wf (.array values)
  | object {values : RackMap} : (∀ e ∈ values, Wf e.2) → (∀ e ∈ values, e.1 ≠ []) →
      values.Sorted → Wf (.object values)

theorem RackValue.IsLeaf.wf {value : RackValue} (h : value.IsLeaf) : Wf value := by
  rcases h with rfl | ⟨text, rfl⟩
  · exact .null
  · exact .scalar text

theorem RackValue.IsLeaf.flat {value : RackValue} (h : value.IsLeaf) : Flat value := by
  rintro inner rfl
  rcases h with h | ⟨text, h⟩ <;> cases h

theorem wf_empty : Wf (.object []) := .object nofun nofun .nil

theorem wf_expectedFor (segment : RackKeySegment) : Wf (expectedFor segment) := by
  cases segment with
  | field key => exact wf_empty
  | _ => exact .array nofun nofun

theorem flat_object (values : RackMap) : Flat (.object values) := nofun

theorem flat_expectedFor (segment : RackKeySegment) : Flat (expectedFor segment) := by
  cases segment with
  | field key => exact flat_object []
  | _ =>
    rintro inner h v hv
    obtain rfl := RackValue.array.inj h
    cases hv

theorem Wf.values {values : List RackValue} (h : Wf (.array values)) {v : RackValue}
    (hv : v ∈ values) : Wf v ∧ Flat v := by
  cases h with
  | array hvalues hflat => exact ⟨hvalues v hv, hflat v hv⟩

theorem Wf.concat {values : List RackValue} {value : RackValue} (h : Wf (.array values))
    (hvalue : Wf value) (hflat : Flat value) : Wf (.array (values ++ [value])) := by
  constructor
  · intro v hv
    rcases List.mem_append.mp hv with hv | hv
    · exact (h.values hv).1
    · exact List.mem_singleton.mp hv ▸ hvalue
  · intro v hv
    rcases List.mem_append.mp hv with hv | hv
    · exact (h.values hv).2
    · exact List.mem_singleton.mp hv ▸ hflat

theorem Wf.left {init last : List RackValue} (h : Wf (.array (init ++ last))) : Wf (.array init) :=
  .array (fun _ hv => (h.values (List.mem_append_left _ hv)).1)
    fun _ hv => (h.values (List.mem_append_left _ hv)).2

theorem Wf.insert {values : RackMap} (h : Wf (.object values)) {key : Text} (hkey : key ≠ [])
    {value : RackValue} (hvalue : Wf value) : Wf (.object (RackMap.insert key value values)) := by
  cases h with
  | object hvalues hkeys hsorted =>
    refine .object (fun e he => ?_) (fun e he => ?_) (RackMap.sorted_insert hsorted)
    · rcases RackMap.mem_insert he with rfl | he
      · exact hvalue
      · exact hvalues e he
    · rcases RackMap.mem_insert he with rfl | he
      · exact hkey
      · exact hkeys e he

theorem Wf.sorted {values : RackMap} (h : Wf (.object values)) : values.Sorted := by
  cases h with
  | object _ _ hsorted => exact hsorted

/-- What an insertion into an object goes on with. -/
theorem Wf.entry {values : RackMap} (h : Wf (.object values)) (key : Text)
    (next : RackKeySegment) : Wf ((RackMap.get values key).getD (expectedFor next)) := by
  cases hget : RackMap.get values key with
  | none => exact wf_expectedFor next
  | some value =>
    cases h with
    | object hvalues _ _ => exact hvalues _ (RackMap.mem_of_get hget)

/-- What a push goes on with stays flat. -/
theorem insertRackValue_flat {value target target' : RackValue} {rest : List RackKeySegment}
    (hvalue : value.IsLeaf) (hrest : rest = [.push] ∨ ∃ key rest', rest = .field key :: rest')
    (hflat : Flat target) (h : insertRackValue value rest target = .ok target') : Flat target' := by
  rcases hrest with rfl | ⟨key, rest, rfl⟩
  · obtain ⟨values, rfl, h | h | ⟨next, rest', _, _, _, hnext, -⟩⟩ := insertRackValue_push h
    · obtain ⟨-, rfl⟩ := h
      rintro inner heq v hv
      obtain rfl := RackValue.array.inj heq
      rcases List.mem_append.mp hv with hv | hv
      · exact hflat values rfl v hv
      · exact List.mem_singleton.mp hv ▸ hvalue
    · cases h.1
    · cases hnext
  · obtain ⟨values, entry, -, rfl, -⟩ := insertRackValue_field h
    exact flat_object _

theorem insertRackValue_wf {value : RackValue} (hvalue : value.IsLeaf)
    {segments : List RackKeySegment} (hpath : IsPath segments) {target target' : RackValue}
    (htarget : Wf target) (h : insertRackValue value segments target = .ok target') :
    Wf target' := by
  induction segments generalizing target target' with
  | nil =>
    rw [insertRackValue] at h
    obtain rfl := Except.ok.inj h
    exact hvalue.wf
  | cons segment rest ih =>
    cases segment with
    | field key =>
      obtain ⟨values, entry, rfl, rfl, ⟨-, rfl⟩ | ⟨next, rest', rfl, h⟩⟩ := insertRackValue_field h
      · exact htarget.insert hpath.1 hvalue.wf
      · exact htarget.insert hpath.1 (ih hpath.2 (htarget.entry key next) h)
    | trailingPush key =>
      obtain ⟨values, init, last, rfl, hinit, rfl⟩ := insertRackValue_trailing h
      rcases hinit with ⟨rfl, rfl⟩ | rfl
      · exact htarget.concat (wf_empty.insert hpath.1 hvalue.wf) (flat_object _)
      · have hlast := (htarget.values (List.mem_append_right init List.mem_cons_self)).1
        exact htarget.left.concat (hlast.insert hpath.1 hvalue.wf) (flat_object _)
    | push =>
      obtain ⟨values, rfl, ⟨-, rfl⟩ | ⟨-, rfl⟩ | hnested⟩ := insertRackValue_push h
      · exact htarget.concat hvalue.wf hvalue.flat
      · exact htarget
      · obtain ⟨next, rest', init, start, last, rfl, hinit, hlast, rfl⟩ := hnested
        have hrest := hpath.1.resolve_left nofun
        rcases hinit with ⟨rfl, rfl⟩ | rfl
        · exact htarget.concat (ih hpath.2 (wf_expectedFor next) hlast)
            (insertRackValue_flat hvalue hrest (flat_expectedFor next) hlast)
        · have hstart := htarget.values (List.mem_append_right init List.mem_cons_self)
          exact htarget.left.concat (ih hpath.2 hstart.1 hlast)
            (insertRackValue_flat hvalue hrest hstart.2 hlast)

/-! ### Leaves -/

/-- A text with the path to it. -/
abbrev Leaf := List RackKeySegment × Text

/-- Leaves of a value that is reached by a segment. -/
def under (segment : RackKeySegment) (found : List Leaf) : List Leaf :=
  found.map fun (path, text) => (segment :: path, text)

@[simp] theorem length_under (segment : RackKeySegment) (found : List Leaf) :
    (under segment found).length = found.length := List.length_map _

theorem mem_under {segment : RackKeySegment} {found : List Leaf} {leaf : Leaf} :
    leaf ∈ under segment found ↔ ∃ l ∈ found, (segment :: l.1, l.2) = leaf := List.mem_map

mutual

/-- The texts of a value, in the order of the query. -/
def leaves : RackValue → List Leaf
  | .scalar text => [([], text)]
  | .array values => leavesArray values
  | .object values => leavesObject values
  | _ => []

def leavesArray : List RackValue → List Leaf
  | [] => []
  | value :: values => under .push (leaves value) ++ leavesArray values

def leavesObject : List (Text × RackValue) → List Leaf
  | [] => []
  | (key, value) :: values => under (.field key) (leaves value) ++ leavesObject values

end

theorem leavesArray_append (values values' : List RackValue) :
    leavesArray (values ++ values') = leavesArray values ++ leavesArray values' := by
  induction values with
  | nil => rfl
  | cons value values ih => rw [List.cons_append, leavesArray, leavesArray, ih, List.append_assoc]

theorem leavesObject_append (values values' : RackMap) :
    leavesObject (values ++ values') = leavesObject values ++ leavesObject values' := by
  induction values with
  | nil => rfl
  | cons e values ih =>
    rw [List.cons_append, leavesObject, leavesObject, ih, List.append_assoc]

def leafCount (value : RackValue) : ℕ := (leaves value).length

theorem leafCount_concat (values : List RackValue) (value : RackValue) :
    leafCount (.array (values ++ [value])) = leafCount (.array values) + leafCount value := by
  simp [leafCount, leaves, leavesArray_append, leavesArray]

theorem leafCount_entry (before : RackMap) (key : Text) (value : RackValue) (after : RackMap) :
    leafCount (.object (before ++ (key, value) :: after)) =
      leafCount (.object (before ++ after)) + leafCount value := by
  simp only [leafCount, leaves, leavesObject_append, leavesObject, List.length_append, length_under]
  omega

theorem leafCount_expectedFor (segment : RackKeySegment) : leafCount (expectedFor segment) = 0 := by
  cases segment <;> rfl

theorem RackValue.IsLeaf.leafCount_le {value : RackValue} (h : value.IsLeaf) : leafCount value ≤ 1 := by
  rcases h with rfl | ⟨text, rfl⟩
  · exact Nat.zero_le 1
  · exact Nat.le_refl 1

theorem leafCount_insert {values : RackMap} (h : values.Sorted) {key : Text}
    {start entry : RackValue} (hstart : leafCount ((values.get key).getD start) + 1 ≥ leafCount entry)
    (hempty : leafCount start = 0) :
    leafCount (.object (values.insert key entry)) ≤ leafCount (.object values) + 1 := by
  rcases RackMap.insert_cases h key entry with
    ⟨before, old, after, rfl, hget, hinsert⟩ | ⟨before, after, rfl, hget, hinsert⟩
  · rw [hget, Option.getD_some] at hstart
    rw [hinsert, leafCount_entry, leafCount_entry]
    omega
  · rw [hget, Option.getD_none, hempty] at hstart
    rw [hinsert, leafCount_entry]
    omega

theorem leafCount_insert_leaf {values : RackMap} (h : values.Sorted) (key : Text)
    {value : RackValue} (hvalue : leafCount value ≤ 1) :
    leafCount (.object (values.insert key value)) ≤ leafCount (.object values) + 1 := by
  have hempty : leafCount .null = 0 := rfl
  exact leafCount_insert h (Nat.le_add_left_of_le hvalue) hempty

/-- An insertion adds a leaf at most. -/
theorem insertRackValue_leafCount {value : RackValue} (hvalue : value.IsLeaf)
    {segments : List RackKeySegment} (hpath : IsPath segments) {target target' : RackValue}
    (htarget : Wf target) (h : insertRackValue value segments target = .ok target') :
    leafCount target' ≤ leafCount target + 1 := by
  have hleaf := hvalue.leafCount_le
  induction segments generalizing target target' with
  | nil =>
    rw [insertRackValue] at h
    obtain rfl := Except.ok.inj h
    omega
  | cons segment rest ih =>
    cases segment with
    | field key =>
      obtain ⟨values, entry, rfl, rfl, ⟨-, rfl⟩ | ⟨next, rest', rfl, h⟩⟩ := insertRackValue_field h
      · exact leafCount_insert_leaf htarget.sorted key hleaf
      · exact leafCount_insert htarget.sorted (ih hpath.2 (htarget.entry key next) h)
          (leafCount_expectedFor next)
    | trailingPush key =>
      obtain ⟨values, init, last, rfl, hinit, rfl⟩ := insertRackValue_trailing h
      rw [leafCount_concat]
      have hempty : leafCount (.object []) = 0 := rfl
      rcases hinit with ⟨rfl, rfl⟩ | rfl
      · have hlast := leafCount_insert_leaf wf_empty.sorted key hleaf
        omega
      · have hsorted := (htarget.values (List.mem_append_right init List.mem_cons_self)).1.sorted
        have hlast := leafCount_insert_leaf hsorted key hleaf
        rw [leafCount_concat]
        omega
    | push =>
      obtain ⟨values, rfl, ⟨-, rfl⟩ | ⟨-, rfl⟩ | hnested⟩ := insertRackValue_push h
      · rw [leafCount_concat]
        omega
      · omega
      · obtain ⟨next, rest', init, start, last, rfl, hinit, hinsert, rfl⟩ := hnested
        rw [leafCount_concat]
        rcases hinit with ⟨rfl, rfl⟩ | rfl
        · have hlast := ih hpath.2 (wf_expectedFor next) hinsert
          rw [leafCount_expectedFor] at hlast
          omega
        · have hstart := htarget.values (List.mem_append_right init List.mem_cons_self)
          have hlast := ih hpath.2 hstart.1 hinsert
          rw [leafCount_concat]
          omega

/-! ### Parsed parameters -/

/-- A root, with nothing behind it where its first character is longer than a byte. -/
def IsRoot (root : Text) (bare : Prop) : Prop :=
  ∃ c rest, root = c :: rest ∧ (c.utf8Size = 1 ∧ '[' ∉ rest ∨ c.utf8Size ≠ 1 ∧ bare)

theorem rackRoot_isRoot {name : Text} (h : (rackRoot name).1 ≠ []) :
    IsRoot (rackRoot name).1 ((rackRoot name).2 = []) := by
  cases name with
  | nil => exact absurd rfl h
  | cons c rest =>
    rw [rackRoot]
    split_ifs with hsize
    · cases hsplit : splitOnce ['['] rest with
      | none => exact ⟨c, rest, rfl, .inl ⟨hsize, not_mem_of_splitOnce_none hsplit⟩⟩
      | some cut =>
        obtain ⟨before, after⟩ := cut
        exact ⟨c, before, rfl, .inl ⟨hsize, not_mem_splitOnce hsplit⟩⟩
    · exact ⟨c, rest, rfl, .inr ⟨hsize, rfl⟩⟩

/-- The root and the segments of a name. -/
theorem rackKey_shape {name root : Text} {segments : List RackKeySegment}
    (h : rackKey name = .ok (some (root, segments))) :
    root ≠ [] ∧ IsPath segments ∧ segments.length < rackDepthLimit ∧ IsRoot root (segments = []) := by
  rw [rackKey] at h
  simp only at h
  split_ifs at h with hempty
  · cases h
  obtain ⟨⟨found, suffix⟩, hfound, h⟩ := bind_eq_ok h
  obtain ⟨_, hlimit, h⟩ := bind_eq_ok h
  obtain ⟨hroot, rfl⟩ := Prod.mk.inj (Option.some.inj (Except.ok.inj h))
  have hlimit := of_decide_eq_false (failIf_eq_ok hlimit)
  have hne : (rackRoot name).1 ≠ [] := by simpa using hempty
  subst hroot
  refine ⟨hne, trailingSegment_isPath (rackSegments_open open_nil hfound), Nat.not_le.mp hlimit, ?_⟩
  obtain ⟨c, rest, heq, h⟩ := rackRoot_isRoot hne
  refine ⟨c, rest, heq, h.imp_right fun ⟨hsize, hbare⟩ => ⟨hsize, ?_⟩⟩
  rw [hbare] at hfound
  obtain ⟨rfl, rfl⟩ := Prod.mk.inj (Except.ok.inj hfound)
  rfl

/-- An insertion of parameters is one into an object. -/
theorem insert_eq (parameters : RackParameters) (root : Text) (segments : List RackKeySegment)
    (value : RackValue) :
    insertRackValue value (.field root :: segments) (.object parameters.values) = (do
      return .object (← parameters.insert root segments value).values) := by
  cases segments with
  | nil => rfl
  | cons segment segments =>
    rw [insertRackValue, RackParameters.insert]
    simp only [bind_assoc]
    rfl

structure Shaped (parameters : RackParameters) : Prop where
  wf : Wf (.object parameters.values)
  roots : ∀ e ∈ parameters.values, IsRoot e.1 e.2.IsLeaf

theorem shaped_empty : Shaped .empty := ⟨wf_empty, nofun⟩

theorem Shaped.insert {parameters parameters' : RackParameters} (h : Shaped parameters)
    {name root : Text} {segments : List RackKeySegment} {value : RackValue} (hvalue : value.IsLeaf)
    (hkey : rackKey name = .ok (some (root, segments)))
    (hinsert : parameters.insert root segments value = .ok parameters') :
    Shaped parameters' ∧
      leafCount (.object parameters'.values) ≤ leafCount (.object parameters.values) + 1 := by
  obtain ⟨hne, hpath, -, hroot⟩ := rackKey_shape hkey
  have hinsert' : insertRackValue value (.field root :: segments) (.object parameters.values) =
      .ok (.object parameters'.values) := by
    rw [insert_eq, hinsert]
    rfl
  have hpath : IsPath (.field root :: segments) := ⟨hne, hpath⟩
  refine ⟨⟨insertRackValue_wf hvalue hpath h.wf hinsert', fun e he => ?_⟩,
    insertRackValue_leafCount hvalue hpath h.wf hinsert'⟩
  obtain ⟨values, entry, hvalues, hvalues', hentry⟩ := insertRackValue_field hinsert'
  obtain rfl := RackValue.object.inj hvalues
  rw [RackValue.object.inj hvalues'] at he
  rcases RackMap.mem_insert he with rfl | he
  · obtain ⟨c, rest, heq, hroot⟩ := hroot
    refine ⟨c, rest, heq, hroot.imp_right fun ⟨hsize, hbare⟩ => ⟨hsize, ?_⟩⟩
    rcases hentry with ⟨-, rfl⟩ | ⟨next, rest', rfl, -⟩
    · exact hvalue
    · cases hbare
  · exact h.roots e he

section Parse

variable {form : FormUrlencoded}

theorem Shaped.parsePiece {parameters parameters' : RackParameters} (h : Shaped parameters)
    {raw : Text} (hpiece : parameters.parsePiece form raw = .ok parameters') :
    Shaped parameters' ∧
      leafCount (.object parameters'.values) ≤ leafCount (.object parameters.values) + 1 := by
  rw [RackParameters.parsePiece] at hpiece
  split at hpiece
  · obtain rfl := Except.ok.inj hpiece
    exact ⟨h, Nat.le_succ _⟩
  · obtain ⟨key, hkey, hpiece⟩ := bind_eq_ok hpiece
    split at hpiece
    · obtain rfl := Except.ok.inj hpiece
      exact ⟨h, Nat.le_succ _⟩
    · refine h.insert ?_ hkey hpiece
      split_ifs
      · exact .inr ⟨_, rfl⟩
      · exact .inl rfl

theorem Shaped.parseFrom {pieces : List Text} {index : ℕ} (hindex : index ≤ rackParameterLimit)
    {parameters parameters' : RackParameters} (h : Shaped parameters)
    (hcount : leafCount (.object parameters.values) ≤ index)
    (hparsed : RackParameters.parseFrom form index pieces parameters = .ok parameters') :
    Shaped parameters' ∧ leafCount (.object parameters'.values) ≤ rackParameterLimit := by
  induction pieces generalizing index parameters with
  | nil =>
    obtain rfl := Except.ok.inj hparsed
    exact ⟨h, hcount.trans hindex⟩
  | cons raw pieces ih =>
    obtain ⟨_, hlimit, hparsed⟩ := bind_eq_ok hparsed
    obtain ⟨next, hpiece, hparsed⟩ := bind_eq_ok hparsed
    have hlimit := of_decide_eq_false (failIf_eq_ok hlimit)
    obtain ⟨hshaped, hnext⟩ := h.parsePiece hpiece
    exact ih (by omega) hshaped (by omega) hparsed

/-- Everything that is parsed is of this shape. -/
theorem shaped_parse {encoded : Text} {parameters : RackParameters}
    (h : RackParameters.parse form encoded = .ok parameters) :
    Shaped parameters ∧ leafCount (.object parameters.values) ≤ rackParameterLimit := by
  obtain ⟨_, -, h⟩ := bind_eq_ok h
  exact shaped_empty.parseFrom (Nat.zero_le _) (Nat.le_refl 0) h

end Parse

end Rustodon.Web
