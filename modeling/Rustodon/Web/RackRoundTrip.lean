import Rustodon.Schemes.Percent
import Rustodon.Web.RackShape

/-! @src web/request_params.rs | name:Round trip of Rack parameters | scheme:nested maps | family:web

    The query of parsed parameters is parsed into the same parameters, without what is null in them.
    The leaves are inserted in their order, and each of them where it has been, as long as no array
    has neighbours that are read as one value. -/

namespace Rustodon.Web
open Schemes.Bytes Schemes.Checked Schemes.Percent Schemes.Utf8

/-! ### Without null -/

mutual

/-- A value without the leaves that are null and the containers that have no others. -/
def strip : RackValue → Option RackValue
  | .null => none
  | .array values =>
    let values := stripArray values
    if values.isEmpty then none else some (.array values)
  | .object values =>
    let values := stripObject values
    if values.isEmpty then none else some (.object values)
  | value => some value

def stripArray : List RackValue → List RackValue
  | [] => []
  | value :: values =>
    match strip value with
    | none => stripArray values
    | some value => value :: stripArray values

def stripObject : List (Text × RackValue) → List (Text × RackValue)
  | [] => []
  | (key, value) :: values =>
    match strip value with
    | none => stripObject values
    | some value => (key, value) :: stripObject values

end

def RackParameters.strip (parameters : RackParameters) : RackParameters :=
  ⟨stripObject parameters.values⟩

theorem stripArray_eq (values : List RackValue) : stripArray values = values.filterMap strip := by
  induction values with
  | nil => rfl
  | cons value values ih =>
    rw [stripArray, ih]
    cases h : strip value with
    | none => rw [List.filterMap_cons_none h]
    | some v => rw [List.filterMap_cons_some h]

theorem stripObject_eq (values : RackMap) :
    stripObject values = values.filterMap fun (key, value) => (strip value).map (key, ·) := by
  induction values with
  | nil => rfl
  | cons e values ih =>
    obtain ⟨key, value⟩ := e
    rw [stripObject, ih]
    cases h : strip value with
    | none => simp [h]
    | some v => simp [h]

mutual

theorem leaves_strip : ∀ value : RackValue, ((strip value).map leaves).getD [] = leaves value
  | .null => rfl
  | .scalar _ => rfl
  | .number _ => rfl
  | .boolean _ => rfl
  | .upload _ => rfl
  | .array values => by
    have h := leavesArray_strip values
    rw [strip]
    split_ifs with hempty
    · rw [List.isEmpty_iff.mp hempty] at h
      exact h
    · exact h
  | .object values => by
    have h := leavesObject_strip values
    rw [strip]
    split_ifs with hempty
    · rw [List.isEmpty_iff.mp hempty] at h
      exact h
    · exact h

theorem leavesArray_strip : ∀ values : List RackValue,
    leavesArray (stripArray values) = leavesArray values
  | [] => rfl
  | value :: values => by
    have hvalue := leaves_strip value
    have hvalues := leavesArray_strip values
    rw [stripArray, leavesArray, ← hvalue, ← hvalues]
    cases strip value <;> rfl

theorem leavesObject_strip : ∀ values : List (Text × RackValue),
    leavesObject (stripObject values) = leavesObject values
  | [] => rfl
  | (key, value) :: values => by
    have hvalue := leaves_strip value
    have hvalues := leavesObject_strip values
    rw [stripObject, leavesObject, ← hvalue, ← hvalues]
    cases strip value <;> rfl

end

/-! ### Values that are read as they stand -/

/-- Neighbours in an array that are not read as one value: an array is not behind an object or
    another array, and the first leaf of an object behind an object has its place in that one. -/
def Apart : RackValue → RackValue → Prop
  | .array _, .array _ => False
  | .object _, .array _ => False
  | .object values, .object values' => ∃ path text rest,
      leavesObject values' = (path, text) :: rest ∧ rackPathState path values = .existing
  | _, _ => True

inductive Readable : RackValue → Prop
  | scalar (text : Text) : Readable (.scalar text)
  | array {values : List RackValue} : (∀ v ∈ values, Readable v) → values.IsChain Apart →
      Readable (.array values)
  | object {values : RackMap} : (∀ e ∈ values, Readable e.2) → (∀ e ∈ values, ']' ∉ e.1) →
      Readable (.object values)

/-- What is left of a well-formed value. -/
inductive Solid : RackValue → Prop
  | scalar (text : Text) : Solid (.scalar text)
  | array {values : List RackValue} : values ≠ [] → (∀ v ∈ values, Solid v) →
      (∀ inner, .array inner ∈ values → ∀ v ∈ inner, ∃ text, v = .scalar text) →
        values.IsChain Apart → Solid (.array values)
  | object {values : RackMap} : values ≠ [] → (∀ e ∈ values, Solid e.2) →
      (∀ e ∈ values, e.1 ≠ []) → values.Sorted → Solid (.object values)

theorem strip_leaf {value value' : RackValue} (h : value.IsLeaf) (hstrip : strip value = some value') :
    ∃ text, value' = .scalar text := by
  rcases h with rfl | ⟨text, rfl⟩
  · cases hstrip
  · exact ⟨text, (Option.some.inj hstrip).symm⟩

theorem strip_array {values : List RackValue} {value : RackValue}
    (h : strip (.array values) = some value) :
    stripArray values ≠ [] ∧ value = .array (stripArray values) := by
  rw [strip] at h
  split_ifs at h with hempty
  exact ⟨by simpa using hempty, (Option.some.inj h).symm⟩

theorem strip_object {values : RackMap} {value : RackValue}
    (h : strip (.object values) = some value) :
    stripObject values ≠ [] ∧ value = .object (stripObject values) := by
  rw [strip] at h
  split_ifs at h with hempty
  exact ⟨by simpa using hempty, (Option.some.inj h).symm⟩

theorem mem_stripArray {values : List RackValue} {value : RackValue} :
    value ∈ stripArray values ↔ ∃ v ∈ values, strip v = some value := by
  rw [stripArray_eq, List.mem_filterMap]

theorem mem_stripObject {values : RackMap} {e : Text × RackValue} :
    e ∈ stripObject values ↔ ∃ v, (e.1, v) ∈ values ∧ strip v = some e.2 := by
  rw [stripObject_eq, List.mem_filterMap]
  constructor
  · rintro ⟨⟨key, v⟩, hmem, heq⟩
    obtain ⟨w, hw, rfl⟩ := Option.map_eq_some_iff.mp heq
    exact ⟨v, hmem, hw⟩
  · rintro ⟨v, hmem, hw⟩
    exact ⟨(e.1, v), hmem, by simp [hw]⟩

theorem sorted_stripObject {values : RackMap} (h : values.Sorted) :
    RackMap.Sorted (stripObject values) := by
  rw [stripObject_eq, RackMap.Sorted]
  refine List.Pairwise.filterMap _ ?_ h
  rintro ⟨key, v⟩ ⟨key', v'⟩ hlt e he e' he'
  obtain ⟨w, -, rfl⟩ := Option.map_eq_some_iff.mp he
  obtain ⟨w', -, rfl⟩ := Option.map_eq_some_iff.mp he'
  exact hlt

theorem Wf.solid {value value' : RackValue} (h : Wf value) (hstrip : strip value = some value')
    (hreadable : Readable value') : Solid value' := by
  induction h generalizing value' with
  | null => cases hstrip
  | scalar text =>
    obtain rfl := Option.some.inj hstrip
    exact .scalar text
  | @array values hvalues hflat ih =>
    obtain ⟨hne, rfl⟩ := strip_array hstrip
    cases hreadable with
    | array hreadable hchain =>
      refine .array hne (fun v hv => ?_) (fun inner hinner w hw => ?_) hchain
      · obtain ⟨v', hv', heq⟩ := mem_stripArray.mp hv
        exact ih v' hv' heq (hreadable v hv)
      · obtain ⟨v', hv', heq⟩ := mem_stripArray.mp hinner
        -- An array comes from an array, in which there are leaves only.
        cases hvalues v' hv' with
        | null => cases heq
        | scalar text => cases heq
        | array _ _ =>
          obtain ⟨-, hinner⟩ := strip_array heq
          obtain rfl := RackValue.array.inj hinner
          obtain ⟨w', hw', hstrip⟩ := mem_stripArray.mp hw
          exact strip_leaf (hflat _ hv' _ rfl w' hw') hstrip
        | object _ _ _ => cases (strip_object heq).2
  | @object values hvalues hkeys hsorted ih =>
    obtain ⟨hne, rfl⟩ := strip_object hstrip
    cases hreadable with
    | object hreadable hplain =>
      refine .object hne (fun e he => ?_) (fun e he => ?_) (sorted_stripObject hsorted)
      · obtain ⟨v, hv, heq⟩ := mem_stripObject.mp he
        exact ih _ hv heq (hreadable e he)
      · obtain ⟨v, hv, heq⟩ := mem_stripObject.mp he
        exact hkeys (e.1, v) hv

/-! ### The leaves in order -/

/-- A leaf has no place in the target yet. -/
def Fresh (target : RackValue) (path : List RackKeySegment) : Prop :=
  ∀ values, target = .object values → rackPathState path values ≠ .existing

/-- The leaves are inserted one after another, each of them at a new place. -/
inductive Builds : RackValue → List Leaf → RackValue → Prop
  | done (target : RackValue) : Builds target [] target
  | step {target next last : RackValue} {path : List RackKeySegment} {text : Text}
      {found : List Leaf} : Fresh target path → insertRackValue (.scalar text) path target = .ok next →
        Builds next found last → Builds target ((path, text) :: found) last

theorem Builds.trans {target next last : RackValue} {found found' : List Leaf}
    (h : Builds target found next) (h' : Builds next found' last) :
    Builds target (found ++ found') last := by
  induction h with
  | done _ => exact h'
  | step hfresh hinsert _ ih => exact .step hfresh hinsert (ih h')

theorem fresh_array (values : List RackValue) (path : List RackKeySegment) :
    Fresh (.array values) path := nofun

theorem get_concat {values : RackMap} {key : Text} (h : ∀ e ∈ values, e.1 < key) :
    RackMap.get values key = none ∧
      ∀ value, RackMap.get (values ++ [(key, value)]) key = some value := by
  have hnone : RackMap.get values key = none := by
    rw [RackMap.get, List.lookup_eq_none_iff]
    intro e he
    simpa using (h e he).ne'
  refine ⟨hnone, fun value => ?_⟩
  rw [RackMap.get, List.lookup_append, ← RackMap.get, hnone]
  simp

theorem insert_concat {values : RackMap} {key : Text} (h : ∀ e ∈ values, e.1 < key)
    (value : RackValue) : RackMap.insert key value values = values ++ [(key, value)] ∧
      ∀ old, RackMap.insert key value (values ++ [(key, old)]) = values ++ [(key, value)] := by
  induction values with
  | nil => exact ⟨rfl, fun old => by simp [RackMap.insert]⟩
  | cons e values ih =>
    obtain ⟨k, v⟩ := e
    have hlt : k < key := h (k, v) List.mem_cons_self
    obtain ⟨hinsert, hreplace⟩ := ih fun e he => h e (List.mem_cons_of_mem _ he)
    constructor
    · rw [RackMap.insert, if_neg hlt.ne, if_neg hlt.not_gt, hinsert]
      rfl
    · intro old
      rw [List.cons_append, RackMap.insert, if_neg hlt.ne, if_neg hlt.not_gt, hreplace old]
      rfl

/-- A path that goes on below a field. -/
def GoesOn (found : List Leaf) : Prop := ∀ leaf ∈ found, leaf.1 ≠ []

theorem insert_field {values : RackMap} {key : Text} {next : RackKeySegment}
    {rest : List RackKeySegment} {text : Text} {entry : RackValue}
    (h : insertRackValue (.scalar text) (next :: rest)
      ((RackMap.get values key).getD (expectedFor next)) = .ok entry) :
    insertRackValue (.scalar text) (.field key :: next :: rest) (.object values) =
      .ok (.object (RackMap.insert key entry values)) := by
  rw [insertRackValue, h]
  rfl

/-- What is built in a field that is the last one of an object. -/
theorem Builds.field {target last : RackValue} {found : List Leaf} (h : Builds target found last)
    (hgoes : GoesOn found) {values : RackMap} {key : Text} (hkey : ∀ e ∈ values, e.1 < key) :
    Builds (.object (values ++ [(key, target)])) (under (.field key) found)
      (.object (values ++ [(key, last)])) := by
  induction h with
  | done target => exact .done _
  | @step target next last path text found hfresh hinsert _ ih =>
    obtain ⟨segment, rest, rfl⟩ := List.exists_cons_of_ne_nil (hgoes _ List.mem_cons_self)
    have hget := (get_concat hkey).2 target
    refine .step ?_ ?_ (ih fun leaf hleaf => hgoes leaf (List.mem_cons_of_mem _ hleaf))
    · intro entries heq
      obtain rfl := RackValue.object.inj heq
      rw [rackPathState, hget]
      simp only
      split
      · exact hfresh _ rfl
      all_goals exact nofun
    · rw [← (insert_concat hkey next).2 target]
      refine insert_field ?_
      rw [hget]
      exact hinsert

/-- What is built in a new field. -/
theorem Builds.newField {segment : RackKeySegment} {rest : List RackKeySegment} {text : Text}
    {last : RackValue} {found : List Leaf}
    (h : Builds (expectedFor segment) ((segment :: rest, text) :: found) last)
    (hgoes : GoesOn found) {values : RackMap} {key : Text} (hkey : ∀ e ∈ values, e.1 < key) :
    Builds (.object values) (under (.field key) ((segment :: rest, text) :: found))
      (.object (values ++ [(key, last)])) := by
  cases h with
  | @step _ next _ _ _ _ hfresh hinsert hbuilds =>
    have hget := (get_concat hkey).1
    refine .step ?_ ?_ (hbuilds.field hgoes hkey)
    · intro entries heq
      obtain rfl := RackValue.object.inj heq
      rw [rackPathState, hget]
      exact nofun
    · rw [← (insert_concat hkey next).1]
      refine insert_field ?_
      rw [hget]
      exact hinsert

section Push

variable {init values : List RackValue} {entries : RackMap} {key text : Text}
  {rest : List RackKeySegment} {next : RackValue}

theorem insert_push_object (hfresh : rackPathState (.field key :: rest) entries ≠ .existing)
    (h : insertRackValue (.scalar text) (.field key :: rest) (.object entries) = .ok next) :
    insertRackValue (.scalar text) (.push :: .field key :: rest) (.array (init ++ [.object entries])) =
      .ok (.array (init ++ [next])) := by
  rw [insertRackValue.eq_def]
  simp only [List.getLast?_concat, List.dropLast_concat, if_neg hfresh, h]
  rfl

theorem insert_push_array
    (h : insertRackValue (.scalar text) (.push :: rest) (.array values) = .ok next) :
    insertRackValue (.scalar text) (.push :: .push :: rest) (.array (init ++ [.array values])) =
      .ok (.array (init ++ [next])) := by
  rw [insertRackValue.eq_def]
  simp only [List.getLast?_concat, List.dropLast_concat, h]
  rfl

/-- A container that is not read as one with the last value is new. -/
theorem insert_push_new {segment : RackKeySegment}
    (hobject : ∀ key', segment = .field key' → ∀ last, values.getLast? = some (.object last) →
      rackPathState (segment :: rest) last = .existing)
    (harray : segment = .push → ∀ last, values.getLast? = some last → ∃ text', last = .scalar text')
    (h : insertRackValue (.scalar text) (segment :: rest) (expectedFor segment) = .ok next) :
    insertRackValue (.scalar text) (.push :: segment :: rest) (.array values) =
      .ok (.array (values ++ [next])) := by
  rw [insertRackValue.eq_def]
  simp only
  split
  · rename_i key' last hlast
    rw [if_pos (hobject key' rfl last hlast), h]
    rfl
  · rename_i last hlast
    obtain ⟨text', heq⟩ := harray rfl _ hlast
    cases heq
  · rename_i last hlast
    obtain ⟨text', heq⟩ := harray rfl _ hlast
    cases heq
  · rw [h]
    rfl

/-- What is built in an object that is the last value of an array. -/
theorem Builds.pushObject {target last : RackValue} {found : List Leaf} (h : Builds target found last)
    (htarget : ∃ entries, target = .object entries)
    (hfields : ∀ leaf ∈ found, ∃ key rest, leaf.1 = .field key :: rest) :
    Builds (.array (init ++ [target])) (under .push found) (.array (init ++ [last])) := by
  induction h with
  | done target => exact .done _
  | @step target next last path text found hfresh hinsert _ ih =>
    obtain ⟨entries, rfl⟩ := htarget
    obtain ⟨key, rest, hpath⟩ := hfields _ List.mem_cons_self
    obtain rfl : path = .field key :: rest := hpath
    obtain ⟨_, entry, -, rfl, -⟩ := insertRackValue_field hinsert
    refine .step (fresh_array _ _) (insert_push_object (hfresh entries rfl) hinsert) ?_
    exact ih ⟨_, rfl⟩ fun leaf hleaf => hfields leaf (List.mem_cons_of_mem _ hleaf)

/-- The same for an array of texts. -/
theorem builds_pushArray {texts : List RackValue} (htexts : ∀ v ∈ texts, ∃ text, v = .scalar text) :
    ∀ {values : List RackValue}, Builds (.array (init ++ [.array values]))
      (under .push (leavesArray texts)) (.array (init ++ [.array (values ++ texts)])) := by
  induction texts with
  | nil =>
    intro values
    rw [List.append_nil]
    exact .done _
  | cons v texts ih =>
    intro values
    obtain ⟨text, rfl⟩ := htexts v List.mem_cons_self
    refine .step (fresh_array _ _) (insert_push_array rfl) ?_
    have h := @ih (fun w hw => htexts w (List.mem_cons_of_mem _ hw)) (values ++ [.scalar text])
    rwa [List.append_assoc] at h

end Push

/-! ### What is built from a value -/

theorem leavesObject_head {values : RackMap} {leaf : Leaf} (h : leaf ∈ leavesObject values) :
    ∃ key rest, leaf.1 = .field key :: rest := by
  induction values with
  | nil => cases h
  | cons e values ih =>
    obtain ⟨key, value⟩ := e
    rcases List.mem_append.mp h with h | h
    · obtain ⟨l, -, rfl⟩ := mem_under.mp h
      exact ⟨key, l.1, rfl⟩
    · exact ih h

theorem leavesArray_head {values : List RackValue} {leaf : Leaf} (h : leaf ∈ leavesArray values) :
    ∃ rest, leaf.1 = .push :: rest := by
  induction values with
  | nil => cases h
  | cons value values ih =>
    rcases List.mem_append.mp h with h | h
    · obtain ⟨l, -, rfl⟩ := mem_under.mp h
      exact ⟨l.1, rfl⟩
    · exact ih h

theorem Solid.leaves_ne_nil {value : RackValue} (h : Solid value) : leaves value ≠ [] := by
  induction h with
  | scalar text => exact List.cons_ne_nil _ _
  | @array values hne _ _ _ ih =>
    obtain ⟨v, values, rfl⟩ := List.exists_cons_of_ne_nil hne
    rw [leaves, leavesArray]
    simpa [under] using fun h => absurd h (ih v List.mem_cons_self)
  | @object values hne _ _ _ ih =>
    obtain ⟨e, values, rfl⟩ := List.exists_cons_of_ne_nil hne
    rw [leaves, leavesObject]
    simpa [under] using fun h => absurd h (ih e List.mem_cons_self)

/-- A container is built from its leaves. -/
structure Built (value : RackValue) : Prop where
  object : ∀ values, value = .object values → Builds (.object []) (leavesObject values) value
  array : ∀ values, value = .array values → Builds (.array []) (leavesArray values) value

theorem Solid.builds_field {value : RackValue} (h : Solid value) (hbuilt : Built value)
    {init : RackMap} {key : Text} (hkey : ∀ e ∈ init, e.1 < key) :
    Builds (.object init) (under (.field key) (leaves value)) (.object (init ++ [(key, value)])) := by
  cases value with
  | scalar text =>
    refine .step ?_ ?_ (.done _)
    · intro values heq
      obtain rfl := RackValue.object.inj heq
      rw [rackPathState, (get_concat hkey).1]
      exact nofun
    · rw [← (insert_concat hkey (.scalar text)).1]
      rfl
  | object values =>
    obtain ⟨⟨path, text⟩, found, hfound⟩ := List.exists_cons_of_ne_nil h.leaves_ne_nil
    have hbuilds := hbuilt.object values rfl
    rw [leaves] at hfound ⊢
    rw [hfound] at hbuilds ⊢
    obtain ⟨key', rest, hpath⟩ := leavesObject_head (hfound ▸ List.mem_cons_self)
    obtain rfl : path = .field key' :: rest := hpath
    have hbuilds : Builds (expectedFor (.field key')) _ _ := hbuilds
    refine hbuilds.newField (fun leaf hleaf => ?_) hkey
    obtain ⟨_, _, hleaf⟩ := leavesObject_head (hfound ▸ List.mem_cons_of_mem _ hleaf)
    exact hleaf ▸ List.cons_ne_nil _ _
  | array values =>
    obtain ⟨⟨path, text⟩, found, hfound⟩ := List.exists_cons_of_ne_nil h.leaves_ne_nil
    have hbuilds := hbuilt.array values rfl
    rw [leaves] at hfound ⊢
    rw [hfound] at hbuilds ⊢
    obtain ⟨rest, hpath⟩ := leavesArray_head (hfound ▸ List.mem_cons_self)
    obtain rfl : path = .push :: rest := hpath
    have hbuilds : Builds (expectedFor .push) _ _ := hbuilds
    refine hbuilds.newField (fun leaf hleaf => ?_) hkey
    obtain ⟨_, hleaf⟩ := leavesArray_head (hfound ▸ List.mem_cons_of_mem _ hleaf)
    exact hleaf ▸ List.cons_ne_nil _ _
  | _ => cases h

theorem builds_object {values init : RackMap} (hvalues : ∀ e ∈ values, Solid e.2 ∧ Built e.2)
    (hsorted : RackMap.Sorted (init ++ values)) :
    Builds (.object init) (leavesObject values) (.object (init ++ values)) := by
  induction values generalizing init with
  | nil =>
    rw [List.append_nil]
    exact .done _
  | cons e values ih =>
    obtain ⟨key, value⟩ := e
    obtain ⟨hsolid, hbuilt⟩ := hvalues (key, value) List.mem_cons_self
    have hkey : ∀ e ∈ init, e.1 < key := fun e he =>
      (RackMap.sorted_split hsorted).2.2 e he (key, value) List.mem_cons_self
    have happend : init ++ (key, value) :: values = init ++ [(key, value)] ++ values := by simp
    rw [happend] at hsorted ⊢
    exact (hsolid.builds_field hbuilt hkey).trans
      (ih (fun e he => hvalues e (List.mem_cons_of_mem _ he)) hsorted)

theorem Solid.builds_push {value : RackValue} (h : Solid value) (hbuilt : Built value)
    (hflat : ∀ inner, value = .array inner → ∀ v ∈ inner, ∃ text, v = .scalar text)
    {init : List RackValue} (hinit : ∀ last, init.getLast? = some last → Solid last ∧ Apart last value) :
    Builds (.array init) (under .push (leaves value)) (.array (init ++ [value])) := by
  cases value with
  | scalar text => exact .step (fresh_array _ _) rfl (.done _)
  | object values =>
    obtain ⟨⟨path, text⟩, found, hfound⟩ := List.exists_cons_of_ne_nil h.leaves_ne_nil
    have hbuilds := hbuilt.object values rfl
    rw [leaves] at hfound ⊢
    rw [hfound] at hbuilds ⊢
    obtain ⟨key, rest, hpath⟩ := leavesObject_head (hfound ▸ List.mem_cons_self)
    obtain rfl : path = .field key :: rest := hpath
    cases hbuilds with
    | @step _ next _ _ _ _ hfresh hinsert hbuilds =>
      obtain ⟨_, entry, -, hnext, -⟩ := insertRackValue_field hinsert
      refine .step (fresh_array _ _)
        (insert_push_new (fun key' _ last hlast => ?_) (by rintro ⟨⟩) hinsert)
        (hbuilds.pushObject ⟨_, hnext⟩ fun leaf hleaf =>
          leavesObject_head (hfound ▸ List.mem_cons_of_mem _ hleaf))
      obtain ⟨path, text', rest', hleaves, hstate⟩ := (hinit _ hlast).2
      rw [hfound] at hleaves
      obtain ⟨hhead, -⟩ := List.cons.inj hleaves
      obtain ⟨rfl, -⟩ := Prod.mk.inj hhead
      exact hstate
  | array values =>
    cases h with
    | array hne _ _ _ =>
      obtain ⟨v, values, rfl⟩ := List.exists_cons_of_ne_nil hne
      obtain ⟨text, rfl⟩ := hflat _ rfl v List.mem_cons_self
      refine .step (fresh_array _ _)
        (insert_push_new (by rintro _ ⟨⟩) (fun _ last hlast => ?_) rfl)
        (builds_pushArray fun w hw => hflat _ rfl w (List.mem_cons_of_mem _ hw))
      obtain ⟨hsolid, hapart⟩ := hinit last hlast
      cases hsolid with
      | scalar text' => exact ⟨text', rfl⟩
      | array _ _ _ _ => exact hapart.elim
      | object _ _ _ _ => exact hapart.elim
  | _ => cases h

theorem builds_array {values init : List RackValue} (hvalues : ∀ v ∈ values, Solid v ∧ Built v)
    (hflat : ∀ inner, .array inner ∈ values → ∀ v ∈ inner, ∃ text, v = .scalar text)
    (hinit : ∀ last, init.getLast? = some last → Solid last)
    (hchain : (init.getLast?.toList ++ values).IsChain Apart) :
    Builds (.array init) (leavesArray values) (.array (init ++ values)) := by
  induction values generalizing init with
  | nil =>
    rw [List.append_nil]
    exact .done _
  | cons value values ih =>
    obtain ⟨hsolid, hbuilt⟩ := hvalues value List.mem_cons_self
    obtain ⟨-, hrest, hbetween⟩ := List.isChain_append.mp hchain
    have happend : init ++ value :: values = init ++ [value] ++ values := by simp
    have hlast : (init ++ [value]).getLast? = some value := List.getLast?_concat
    rw [happend]
    refine Builds.trans (hsolid.builds_push hbuilt ?_ ?_) (ih ?_ ?_ ?_ ?_)
    · rintro inner rfl
      exact hflat inner List.mem_cons_self
    · intro last hlast
      refine ⟨hinit last hlast, hbetween last ?_ value rfl⟩
      rw [hlast]
      rfl
    · exact fun v hv => hvalues v (List.mem_cons_of_mem _ hv)
    · exact fun inner hinner => hflat inner (List.mem_cons_of_mem _ hinner)
    · intro last hlast'
      rw [hlast] at hlast'
      exact Option.some.inj hlast' ▸ hsolid
    · rw [hlast]
      exact hrest

theorem Solid.built {value : RackValue} (h : Solid value) : Built value := by
  induction h with
  | scalar text => exact ⟨nofun, nofun⟩
  | @array values _ hvalues hflat hchain ih =>
    refine ⟨nofun, fun values' heq => ?_⟩
    obtain rfl := RackValue.array.inj heq
    exact builds_array (fun v hv => ⟨hvalues v hv, ih v hv⟩) hflat nofun hchain
  | @object values _ hvalues _ hsorted ih =>
    refine ⟨fun values' heq => ?_, nofun⟩
    obtain rfl := RackValue.object.inj heq
    exact builds_object (fun e he => ⟨hvalues e he, ih e he⟩) hsorted

/-! ### Names -/

/-- What a path adds to a name. -/
def suffixOf : List RackKeySegment → Text
  | [] => []
  | .field key :: rest => '[' :: (key ++ ']' :: suffixOf rest)
  | _ :: rest => '[' :: ']' :: suffixOf rest

/-- A segment whose name ends where it is closed. -/
def Closed (segment : RackKeySegment) : Prop :=
  segment = .push ∨ ∃ key, ']' ∉ key ∧ segment = .field key

/-- What may follow a push. -/
def FollowsPush (path : List RackKeySegment) : Prop :=
  path = [] ∨ path = [.push] ∨ ∃ key rest, path = .field key :: rest

theorem rackSegments_suffixOf {path : List RackKeySegment} (hpath : IsPath path)
    (hclosed : ∀ segment ∈ path, Closed segment) {left : ℕ} (hleft : path.length < left)
    {segments : List RackKeySegment} (hlast : segments.getLast? = some .push → FollowsPush path) :
    rackSegments left segments (suffixOf path) = .ok (segments ++ path, []) := by
  induction path generalizing left segments with
  | nil =>
    obtain ⟨left, rfl⟩ := Nat.exists_eq_add_of_le' (Nat.one_le_of_lt hleft)
    rw [suffixOf, rackSegments_end (by decide), List.append_nil]
  | cons segment path ih =>
    obtain ⟨left, rfl⟩ := Nat.exists_eq_add_of_le' (Nat.one_le_of_lt hleft)
    rw [List.length_cons] at hleft
    have hrest : ∀ s ∈ path, Closed s := fun s hs => hclosed s (List.mem_cons_of_mem _ hs)
    have happend : segments ++ segment :: path = segments ++ [segment] ++ path := by simp
    rw [happend]
    rcases hclosed segment List.mem_cons_self with rfl | ⟨key, hkey, rfl⟩
    · have hsplit : splitOnce [']'] (']' :: suffixOf path) = some ([], suffixOf path) :=
        splitOnce_separator (List.not_mem_nil) _
      have hsegment : bracketSegment segments [] (suffixOf path) = .push := by
        have hnot : (!(suffixOf path).isEmpty && decide (segments.getLast? = some .push)) = false := by
          by_cases hpush : segments.getLast? = some .push
          · have hpath : path = [] := by
              rcases hlast hpush with h | h | ⟨key, rest, h⟩
              · cases h
              · exact (List.cons.inj h).2
              · cases h
            rw [hpath]
            rfl
          · rw [decide_eq_false hpush, Bool.and_false]
        rw [bracketSegment, if_pos List.isEmpty_nil, hnot, if_neg Bool.false_ne_true]
      rw [suffixOf, rackSegments_bracket, hsplit, Option.getD_some, hsegment]
      · exact ih hpath.2 hrest (by omega) fun _ => hpath.1
      · rintro _ ⟨⟩
    · have hsplit : splitOnce [']'] (key ++ ']' :: suffixOf path) = some (key, suffixOf path) :=
        splitOnce_separator hkey _
      have hsegment : bracketSegment segments key (suffixOf path) = .field key := by
        rw [bracketSegment, if_neg (by simpa using hpath.1)]
      rw [suffixOf, rackSegments_bracket, hsplit, Option.getD_some, hsegment]
      refine ih hpath.2 hrest (by omega) fun h => ?_
      rw [List.getLast?_concat] at h
      cases h

theorem rackRoot_suffixOf {root : Text} {path : List RackKeySegment} (h : IsRoot root (path = [])) :
    rackRoot (root ++ suffixOf path) = (root, suffixOf path) := by
  obtain ⟨c, rest, rfl, ⟨hsize, hrest⟩ | ⟨hsize, rfl⟩⟩ := h
  · rw [List.cons_append, rackRoot, if_pos hsize]
    have hsuffix : suffixOf path = [] ∨ ∃ suffix, suffixOf path = '[' :: suffix := by
      cases path with
      | nil => exact .inl rfl
      | cons segment path => cases segment <;> exact .inr ⟨_, rfl⟩
    rcases hsuffix with hsuffix | ⟨suffix, hsuffix⟩
    · have hsplit : splitOnce ['['] rest = none := by
        have h := @splitOnce_append_of_not_mem '[' [] rest [] hrest
        simpa [splitOnce] using h
      rw [hsuffix, List.append_nil, hsplit]
    · rw [hsuffix, splitOnce_separator hrest]
  · rw [suffixOf, List.append_nil, rackRoot, if_neg hsize]

/-- The name of a leaf is read as its path. -/
theorem rackKey_suffixOf {root : Text} {path : List RackKeySegment} (hroot : IsRoot root (path = []))
    (hpath : IsPath path) (hclosed : ∀ segment ∈ path, Closed segment)
    (hlength : path.length < rackDepthLimit) :
    rackKey (root ++ suffixOf path) = .ok (some (root, path)) := by
  have hne : root.isEmpty = false := by
    obtain ⟨c, rest, rfl, -⟩ := hroot
    rfl
  have hlast : ([] : List RackKeySegment).getLast? = some .push → FollowsPush path := nofun
  rw [rackKey, rackRoot_suffixOf hroot]
  simp only [hne, rackSegments_suffixOf hpath hclosed hlength hlast, ok_bind, List.nil_append,
    trailingSegment, List.isEmpty_nil, decide_eq_false (Nat.not_le.mpr hlength), failIf_false, if_true]
  rfl

theorem le_jsonDepthItems {values : List RackValue} {v : RackValue} (h : v ∈ values) :
    v.jsonDepth ≤ jsonDepthItems values := by
  induction values with
  | nil => cases h
  | cons value values ih =>
    rw [jsonDepthItems]
    rcases List.mem_cons.mp h with rfl | h
    · exact le_max_left _ _
    · exact (ih h).trans (le_max_right _ _)

theorem le_jsonDepthFields {values : RackMap} {e : Text × RackValue} (h : e ∈ values) :
    e.2.jsonDepth ≤ jsonDepthFields values := by
  induction values with
  | nil => cases h
  | cons entry values ih =>
    rw [jsonDepthFields]
    rcases List.mem_cons.mp h with rfl | h
    · exact le_max_left _ _
    · exact (ih h).trans (le_max_right _ _)

theorem mem_leavesArray {values : List RackValue} {leaf : Leaf} :
    leaf ∈ leavesArray values ↔ ∃ v ∈ values, ∃ l ∈ leaves v, leaf = (.push :: l.1, l.2) := by
  induction values with
  | nil => simp [leavesArray]
  | cons value values ih => simp [leavesArray, mem_under, ih, eq_comm]

theorem mem_leavesObject {values : RackMap} {leaf : Leaf} :
    leaf ∈ leavesObject values ↔
      ∃ e ∈ values, ∃ l ∈ leaves e.2, leaf = (.field e.1 :: l.1, l.2) := by
  induction values with
  | nil => simp [leavesObject]
  | cons e values ih => simp [leavesObject, mem_under, ih, eq_comm]

/-- The path to a leaf is one that a name can have. -/
structure Named (path : List RackKeySegment) (depth : ℕ) : Prop where
  isPath : IsPath path
  closed : ∀ segment ∈ path, Closed segment
  length_le : path.length ≤ depth

theorem Solid.follows {value : RackValue} (h : Solid value)
    (hflat : ∀ inner, value = .array inner → ∀ v ∈ inner, ∃ text, v = .scalar text)
    {leaf : Leaf} (hleaf : leaf ∈ leaves value) : FollowsPush leaf.1 := by
  cases h with
  | scalar text =>
    obtain rfl := List.mem_singleton.mp hleaf
    exact .inl rfl
  | array _ _ _ _ =>
    obtain ⟨v, hv, l, hl, rfl⟩ := mem_leavesArray.mp hleaf
    obtain ⟨text, rfl⟩ := hflat _ rfl v hv
    obtain rfl := List.mem_singleton.mp hl
    exact .inr (.inl rfl)
  | object _ _ _ _ =>
    obtain ⟨e, _, l, _, rfl⟩ := mem_leavesObject.mp hleaf
    exact .inr (.inr ⟨e.1, l.1, rfl⟩)

theorem Solid.named {value : RackValue} (h : Solid value) (hreadable : Readable value) {leaf : Leaf}
    (hleaf : leaf ∈ leaves value) : Named leaf.1 value.jsonDepth := by
  induction h generalizing leaf with
  | scalar text =>
    obtain rfl := List.mem_singleton.mp hleaf
    exact ⟨trivial, nofun, Nat.zero_le _⟩
  | @array values _ hvalues hflat _ ih =>
    obtain ⟨v, hv, l, hl, rfl⟩ := mem_leavesArray.mp hleaf
    cases hreadable with
    | array hreadable _ =>
      obtain ⟨hpath, hclosed, hlength⟩ := ih v hv (hreadable v hv) hl
      have hfollows := (hvalues v hv).follows (fun inner hinner => hflat inner (hinner ▸ hv)) hl
      refine ⟨⟨hfollows, hpath⟩, List.forall_mem_cons.mpr ⟨.inl rfl, hclosed⟩, ?_⟩
      have hdepth := le_jsonDepthItems hv
      rw [List.length_cons, RackValue.jsonDepth]
      omega
  | @object values _ hvalues hkeys _ ih =>
    obtain ⟨e, he, l, hl, rfl⟩ := mem_leavesObject.mp hleaf
    cases hreadable with
    | object hreadable hplain =>
      obtain ⟨hpath, hclosed, hlength⟩ := ih e he (hreadable e he) hl
      refine ⟨⟨hkeys e he, hpath⟩,
        List.forall_mem_cons.mpr ⟨.inr ⟨e.1, hplain e he, rfl⟩, hclosed⟩, ?_⟩
      have hdepth := le_jsonDepthFields he
      rw [List.length_cons, RackValue.jsonDepth]
      omega

/-! ### The query -/

section Query

variable {form : FormUrlencoded} {floatText : String → Text}

theorem append_leaves {value : RackValue} (h : Wf value) (name : Text) :
    append floatText name value =
      (leaves value).map fun (path, text) => (name ++ suffixOf path, text) := by
  induction h generalizing name with
  | null => rfl
  | scalar text => simp [append, leaves, suffixOf]
  | @array values _ _ ih =>
    have hitems : ∀ values : List RackValue, (∀ v ∈ values, ∀ name, append floatText name v =
        (leaves v).map fun (path, text) => (name ++ suffixOf path, text)) →
          appendArray floatText (name ++ ['[', ']']) values =
            (leavesArray values).map fun (path, text) => (name ++ suffixOf path, text) := by
      intro values hvalues
      induction values with
      | nil => rfl
      | cons v values ih =>
        rw [appendArray, leavesArray, List.map_append, hvalues v List.mem_cons_self,
          ih fun w hw => hvalues w (List.mem_cons_of_mem _ hw)]
        simp [under, suffixOf]
    exact hitems values ih
  | @object values _ _ _ ih =>
    have hfields : ∀ values : RackMap, (∀ e ∈ values, ∀ name, append floatText name e.2 =
        (leaves e.2).map fun (path, text) => (name ++ suffixOf path, text)) →
          appendObject floatText name values =
            (leavesObject values).map fun (path, text) => (name ++ suffixOf path, text) := by
      intro values hvalues
      induction values with
      | nil => rfl
      | cons e values ih =>
        rw [appendObject, leavesObject, List.map_append, hvalues e List.mem_cons_self,
          ih fun w hw => hvalues w (List.mem_cons_of_mem _ hw)]
        simp [under, suffixOf]
    exact hfields values ih

/-- The name and the text of a leaf, whose path begins with the root. -/
def pairOf : Leaf → Text × Text
  | (.field root :: path, text) => (root ++ suffixOf path, text)
  | (path, text) => (suffixOf path, text)

theorem pairs_eq {values : RackMap} (h : ∀ e ∈ values, Wf e.2) :
    RackParameters.pairs floatText ⟨values⟩ = (leavesObject values).map pairOf := by
  induction values with
  | nil => rfl
  | cons e values ih =>
    obtain ⟨key, value⟩ := e
    have hpairs := ih fun w hw => h w (List.mem_cons_of_mem _ hw)
    have hvalue := @append_leaves floatText value (h (key, value) List.mem_cons_self) key
    rw [RackParameters.pairs] at hpairs ⊢
    rw [List.flatMap_cons, hpairs]
    change append floatText key value ++ _ = _
    rw [hvalue, leavesObject, List.map_append, under, List.map_map]
    rfl

/-- A leaf of parameters, with a root that may be read. -/
def RootNamed (leaf : Leaf) : Prop :=
  ∃ root path, leaf.1 = .field root :: path ∧ IsRoot root (path = []) ∧
    ∃ depth, depth < rackDepthLimit ∧ Named path depth

theorem parsePiece_leaf (hform : form.Lawful) {root text : Text} {path : List RackKeySegment}
    (hroot : IsRoot root (path = [])) {depth : ℕ} (hdepth : depth < rackDepthLimit)
    (hnamed : Named path depth) (parameters : RackParameters) :
    parameters.parsePiece form (form.piece (root ++ suffixOf path, text)) =
      parameters.insert root path (.scalar text) := by
  have hkey := rackKey_suffixOf hroot hnamed.isPath hnamed.closed
    (Nat.lt_of_le_of_lt hnamed.length_le hdepth)
  have hequals : (form.piece (root ++ suffixOf path, text)).contains '=' = true := by
    simp [FormUrlencoded.piece]
  rw [RackParameters.parsePiece, hequals, FormUrlencoded.piece, hform.parse_pair]
  simp only [hkey, ok_bind, if_true]

/-- The pieces are inserted as the leaves are. -/
theorem parseFrom_leaves (hform : form.Lawful) {found : List Leaf}
    (hnamed : ∀ leaf ∈ found, RootNamed leaf) {index : ℕ}
    (hindex : index + found.length ≤ rackParameterLimit) {values values' : RackMap}
    (h : Builds (.object values) found (.object values')) :
    RackParameters.parseFrom form index (found.map fun leaf => form.piece (pairOf leaf)) ⟨values⟩ =
      .ok ⟨values'⟩ := by
  induction found generalizing index values with
  | nil =>
    cases h
    rfl
  | cons leaf found ih =>
    obtain ⟨path, text⟩ := leaf
    cases h with
    | @step _ next _ _ _ _ _ hinsert hbuilds =>
      obtain ⟨root, path, hpath, hroot, depth, hdepth, hnamed'⟩ := hnamed _ List.mem_cons_self
      obtain rfl : _ = .field root :: path := hpath
      rw [List.length_cons] at hindex
      have hlimit : decide (index = rackParameterLimit) = false := decide_eq_false (by omega)
      have hinsert' := insert_eq ⟨values⟩ root path (.scalar text)
      simp only at hinsert'
      rw [hinsert] at hinsert'
      obtain ⟨parameters, hparameters, hnext⟩ := bind_eq_ok hinsert'.symm
      obtain rfl : next = .object parameters.values := (Except.ok.inj hnext).symm
      rw [List.map_cons, RackParameters.parseFrom, hlimit, failIf_false, ok_bind, pairOf,
        parsePiece_leaf hform hroot hdepth hnamed', hparameters, ok_bind]
      exact ih (fun leaf hleaf => hnamed leaf (List.mem_cons_of_mem _ hleaf)) (by omega) hbuilds

theorem piece_plain (hform : form.Lawful) (pair : Text × Text) : '&' ∉ form.piece pair := by
  rw [FormUrlencoded.piece, List.mem_append, List.mem_cons, not_or, not_or]
  exact ⟨hform.serialize_plain _, by decide, hform.serialize_plain _⟩

theorem Shaped.rootNamed {parameters : RackParameters} (h : Shaped parameters)
    (hsolid : ∀ e ∈ parameters.strip.values, Solid e.2)
    (hreadable : ∀ e ∈ parameters.strip.values, Readable e.2)
    (hdepth : ∀ e ∈ parameters.strip.values, e.2.jsonDepth < rackDepthLimit) {leaf : Leaf}
    (hleaf : leaf ∈ leavesObject parameters.strip.values) : RootNamed leaf := by
  obtain ⟨e, he, l, hl, rfl⟩ := mem_leavesObject.mp hleaf
  obtain ⟨v, hv, hstrip⟩ := mem_stripObject.mp he
  obtain ⟨c, rest, heq, hroot⟩ := h.roots _ hv
  refine ⟨e.1, l.1, rfl, ⟨c, rest, heq, hroot.imp_right fun ⟨hsize, hbare⟩ => ⟨hsize, ?_⟩⟩, _,
    hdepth e he, (hsolid e he).named (hreadable e he) hl⟩
  obtain ⟨text, htext⟩ := strip_leaf hbare hstrip
  rw [htext] at hl
  obtain rfl := List.mem_singleton.mp hl
  rfl

theorem Shaped.solid {parameters : RackParameters} (h : Shaped parameters)
    (hreadable : ∀ e ∈ parameters.strip.values, Readable e.2) {e : Text × RackValue}
    (he : e ∈ parameters.strip.values) : Solid e.2 := by
  obtain ⟨v, hv, hstrip⟩ := mem_stripObject.mp he
  cases h.wf with
  | object hvalues _ _ => exact (hvalues _ hv).solid hstrip (hreadable e he)

/-- CORRECT (RackParameters::parse, RackParameters::to_query): the query that parsed parameters are
    rewritten to is parsed into them again, without what is null. -/
theorem parse_toQuery (hform : form.Lawful) {encoded : Text} {parameters : RackParameters}
    (hparsed : RackParameters.parse form encoded = .ok parameters)
    (hreadable : ∀ e ∈ parameters.strip.values, Readable e.2)
    (hdepth : ∀ e ∈ parameters.strip.values, e.2.jsonDepth < rackDepthLimit)
    (hlength : byteLen (parameters.toQuery floatText form) ≤ rackBytesLimit) :
    RackParameters.parse form (parameters.toQuery floatText form) = .ok parameters.strip := by
  obtain ⟨hshaped, hcount⟩ := shaped_parse hparsed
  have hsolid : ∀ e ∈ parameters.strip.values, Solid e.2 := fun e he => hshaped.solid hreadable he
  have hsorted : RackMap.Sorted parameters.strip.values := sorted_stripObject hshaped.wf.sorted
  have hbuilds : Builds (.object []) (leavesObject parameters.strip.values)
      (.object parameters.strip.values) :=
    builds_object (fun e he => ⟨hsolid e he, (hsolid e he).built⟩) hsorted
  have hpairs : parameters.pairs floatText = (leavesObject parameters.strip.values).map pairOf := by
    cases hshaped.wf with
    | object hvalues _ _ =>
      rw [RackParameters.strip, leavesObject_strip]
      exact pairs_eq hvalues
  have hleaves : (leavesObject parameters.strip.values).length ≤ rackParameterLimit := by
    rw [RackParameters.strip, leavesObject_strip]
    exact hcount
  rw [RackParameters.parse, decide_eq_false (Nat.not_lt.mpr hlength), failIf_false, ok_bind,
    RackParameters.toQuery, hpairs, List.map_map]
  by_cases hempty : leavesObject parameters.strip.values = []
  · -- An empty query is a single piece without a pair.
    rw [hempty] at hbuilds
    have hstrip : parameters.strip = .empty := by
      generalize hvalues : RackValue.object parameters.strip.values = value at hbuilds
      cases hbuilds
      exact congrArg RackParameters.mk (RackValue.object.inj hvalues)
    have hpiece : RackParameters.empty.parsePiece form [] = .ok .empty := by
      rw [RackParameters.parsePiece, hform.parse_nil]
    rw [hempty, hstrip, List.map_nil, List.intercalate_nil, List.splitOn_nil,
      RackParameters.parseFrom, hpiece]
    rfl
  · have hpieces : ∀ piece ∈ (leavesObject parameters.strip.values).map (form.piece ∘ pairOf),
        '&' ∉ piece := by
      intro piece hpiece
      obtain ⟨leaf, -, rfl⟩ := List.mem_map.mp hpiece
      exact piece_plain hform _
    rw [List.splitOn_intercalate '&' hpieces (by simpa using hempty)]
    exact parseFrom_leaves hform (fun leaf => hshaped.rootNamed hsolid hreadable hdepth) (by omega)
      hbuilds

end Query

/-! ### Form encoding as it is specified -/

/-- The bytes that stand for themselves, with the blank that is written as a plus. -/
def isFormPlain (b : UInt8) : Bool :=
  (48 ≤ b.toNat && b.toNat ≤ 57) || (65 ≤ b.toNat && b.toNat ≤ 90) ||
    (97 ≤ b.toNat && b.toNat ≤ 122) || [32, 42, 45, 46, 95].contains b.toNat

def formSerialize (text : Text) : Text :=
  (encode isFormPlain (utf8 text)).map fun b => Char.ofNat (if b = 32 then 43 else b).toNat

/-- What is no text is read as an empty one. -/
def formDecode (text : Text) : Text :=
  (fromUtf8 (decode ((utf8 text).map fun b => if b = 43 then 32 else b))).getD []

def standardForm : FormUrlencoded where
  parse raw :=
    if raw.isEmpty then none
    else
      let (name, value) := (splitOnce ['='] raw).getD (raw, [])
      some (formDecode name, formDecode value)
  serialize := formSerialize

theorem mem_formBytes {text : Text} {b : UInt8} (h : b ∈ encode isFormPlain (utf8 text)) :
    b.toNat < 128 ∧ b ≠ 43 ∧ b ≠ 38 ∧ b ≠ 61 := by
  rcases mem_encode h with h | rfl | ⟨n, hn, rfl⟩
  · have hplain : ∀ n < 256, isFormPlain (UInt8.ofNat n) = true → (UInt8.ofNat n).toNat < 128 ∧
        UInt8.ofNat n ≠ 43 ∧ UInt8.ofNat n ≠ 38 ∧ UInt8.ofNat n ≠ 61 := by
      decide +kernel
    have hb := hplain b.toNat b.toNat_lt
    rw [UInt8.ofNat_toNat] at hb
    exact hb h
  · decide
  · have hdigit : ∀ n < 16, (hexDigit n).toNat < 128 ∧ hexDigit n ≠ 43 ∧ hexDigit n ≠ 38 ∧
        hexDigit n ≠ 61 := by
      decide
    exact hdigit n hn

theorem mem_formSerialize {text : Text} {c : Char} (h : c ∈ formSerialize text) :
    c ≠ '&' ∧ c ≠ '=' := by
  obtain ⟨b, hb, rfl⟩ := List.mem_map.mp h
  obtain ⟨hlt, -, hand, hequals⟩ := mem_formBytes hb
  have hchar : ∀ n < 128, UInt8.ofNat n ≠ 38 → UInt8.ofNat n ≠ 61 →
      Char.ofNat (if UInt8.ofNat n = 32 then 43 else UInt8.ofNat n).toNat ≠ '&' ∧
        Char.ofNat (if UInt8.ofNat n = 32 then 43 else UInt8.ofNat n).toNat ≠ '=' := by
    decide
  have hb := hchar b.toNat hlt
  rw [UInt8.ofNat_toNat] at hb
  exact hb hand hequals

theorem formDecode_formSerialize (text : Text) : formDecode (formSerialize text) = text := by
  have hbytes : ∀ bytes : Bytes, (∀ b ∈ bytes, b.toNat < 128 ∧ b ≠ 43) →
      (utf8 (bytes.map fun b => Char.ofNat (if b = 32 then 43 else b).toNat)).map
        (fun b => if b = 43 then 32 else b) = bytes := by
    intro bytes h
    induction bytes with
    | nil => rfl
    | cons b bytes ih =>
      obtain ⟨hlt, hplus⟩ := h b List.mem_cons_self
      have hbyte : ∀ n < 128, UInt8.ofNat n ≠ 43 →
          (String.utf8EncodeChar (Char.ofNat (if UInt8.ofNat n = 32 then 43 else
            UInt8.ofNat n).toNat)).map (fun b => if b = 43 then 32 else b) = [UInt8.ofNat n] := by
        decide
      have hb := hbyte b.toNat hlt
      rw [UInt8.ofNat_toNat] at hb
      rw [List.map_cons, utf8_cons, List.map_append, hb hplus,
        ih fun b' hb' => h b' (List.mem_cons_of_mem _ hb')]
      rfl
  rw [formDecode, formSerialize, hbytes _ fun b hb => ⟨(mem_formBytes hb).1, (mem_formBytes hb).2.1⟩,
    decode_encode (by decide), fromUtf8_utf8, Option.getD_some]

theorem standardForm_lawful : standardForm.Lawful where
  parse_nil := rfl
  parse_pair name value := by
    have hequals : '=' ∉ formSerialize name := fun h => (mem_formSerialize h).2 rfl
    have hempty : (formSerialize name ++ '=' :: formSerialize value).isEmpty = false := by simp
    simp only [standardForm, splitOnce_separator hequals, hempty, Option.getD_some,
      formDecode_formSerialize]
    rfl
  serialize_plain text h := (mem_formSerialize h).1 rfl

def sampleQuery : Text := "a[][b]=1&a[][b]=2&c[d]&c[e+][]=%C3%A9".toList

def sampleParameters : RackParameters :=
  ⟨[(['a'], .array [.object [(['b'], .scalar ['1'])], .object [(['b'], .scalar ['2'])]]),
    (['c'], .object [(['d'], .null), (['e', ' '], .array [.scalar ['é']])])]⟩

theorem readable_sampleParameters : ∀ e ∈ sampleParameters.strip.values, Readable e.2 := by
  have hobject : ∀ text : Text, Readable (.object [(['b'], .scalar text)]) := fun text =>
    .object (List.forall_mem_singleton.mpr (.scalar text))
      (List.forall_mem_singleton.mpr (show ']' ∉ ['b'] by decide))
  refine List.forall_mem_cons.mpr ⟨.array ?_ ?_, List.forall_mem_singleton.mpr (.object ?_ ?_)⟩
  · exact List.forall_mem_cons.mpr ⟨hobject _, List.forall_mem_singleton.mpr (hobject _)⟩
  · exact List.isChain_pair.mpr ⟨[.field ['b']], ['2'], [], rfl, rfl⟩
  · exact List.forall_mem_singleton.mpr
      (.array (List.forall_mem_singleton.mpr (.scalar _)) (.singleton _))
  · exact List.forall_mem_singleton.mpr (by decide)

theorem parse_toQuery_sample :
    RackParameters.parse standardForm (sampleParameters.toQuery (fun _ => []) standardForm) =
      .ok sampleParameters.strip :=
  parse_toQuery standardForm_lawful (show RackParameters.parse standardForm sampleQuery = _ from rfl)
    readable_sampleParameters (by decide) (by decide)

/-! ### Parameters that are read otherwise -/

/-- The query of what is parsed is parsed into the same, without null. -/
def Agrees (encoded : Text) : Prop :=
  ∀ parameters, RackParameters.parse standardForm encoded = .ok parameters →
    RackParameters.parse standardForm (parameters.toQuery (fun _ => []) standardForm) =
      .ok parameters.strip

mutual

/-- The number of all values in a value. -/
def nodes : RackValue → ℕ
  | .array values => 1 + nodesArray values
  | .object values => 1 + nodesObject values
  | _ => 1

def nodesArray : List RackValue → ℕ
  | [] => 0
  | value :: values => nodes value + nodesArray values

def nodesObject : List (Text × RackValue) → ℕ
  | [] => 0
  | (_, value) :: values => nodes value + nodesObject values

end

/-- The leaves of the query that is parsed again, or the number of its values, are others. -/
def differs (encoded : Text) : Bool :=
  match RackParameters.parse standardForm encoded with
  | .error _ => false
  | .ok parameters =>
    match RackParameters.parse standardForm (parameters.toQuery (fun _ => []) standardForm) with
    | .error _ => true
    | .ok again => decide (leavesObject again.values ≠ leavesObject parameters.strip.values ∨
        nodesObject again.values ≠ nodesObject parameters.strip.values)

theorem not_agrees {encoded : Text} (h : differs encoded = true) : ¬ Agrees encoded := by
  intro hagrees
  rw [differs] at h
  split at h
  · cases h
  · rename_i parameters hparsed
    rw [hagrees parameters hparsed] at h
    exact (of_decide_eq_true h).elim (· rfl) (· rfl)

def exclamations (count : ℕ) : Text := List.replicate count '!'

theorem formDecode_exclamations (count : ℕ) : formDecode (exclamations count) = exclamations count := by
  have hbytes : utf8 (exclamations count) = List.replicate count 33 := by
    induction count with
    | zero => rfl
    | succ count ih =>
      rw [exclamations, List.replicate_succ, utf8_cons, ← exclamations, ih]
      rfl
  have hdecode : decode (List.replicate count 33) = List.replicate count 33 := by
    clear hbytes
    induction count with
    | zero => rfl
    | succ count ih => rw [List.replicate_succ, decode_cons (by decide), ih]
  have hmap : (List.replicate count (33 : UInt8)).map (fun b => if b = 43 then 32 else b) =
      List.replicate count 33 := by
    rw [List.map_replicate]
    rfl
  rw [formDecode, hbytes, hmap, hdecode, ← hbytes, fromUtf8_utf8, Option.getD_some]

theorem byteLen_formSerialize_exclamations (count : ℕ) :
    3 * count ≤ byteLen (formSerialize (exclamations count)) := by
  induction count with
  | zero => exact Nat.zero_le _
  | succ count ih =>
    have hcons : formSerialize (exclamations (count + 1)) =
        '%' :: '2' :: '1' :: formSerialize (exclamations count) := rfl
    rw [hcons, byteLen_cons, byteLen_cons, byteLen_cons]
    have hpercent : '%'.utf8Size = 1 := rfl
    have htwo : '2'.utf8Size = 1 := rfl
    have hone : '1'.utf8Size = 1 := rfl
    omega

theorem parse_exclamations {count : ℕ} (h : count + 2 ≤ rackBytesLimit) :
    RackParameters.parse standardForm ('a' :: '=' :: exclamations count) =
      .ok ⟨[(['a'], .scalar (exclamations count))]⟩ := by
  have hlength : byteLen ('a' :: '=' :: exclamations count) = count + 2 := by
    have hall : byteLen (exclamations count) = count := by
      induction count with
      | zero => rfl
      | succ count ih =>
        have hone : '!'.utf8Size = 1 := rfl
        rw [exclamations, List.replicate_succ, byteLen_cons, ← exclamations, ih (by omega)]
        omega
    have ha : 'a'.utf8Size = 1 := rfl
    have hequals : '='.utf8Size = 1 := rfl
    rw [byteLen_cons, byteLen_cons, hall]
    omega
  have hplain : '&' ∉ 'a' :: '=' :: exclamations count := by
    simp [exclamations, List.mem_replicate]
  have hpair : standardForm.parse ('a' :: '=' :: exclamations count) =
      some (['a'], exclamations count) := by
    have ha : formDecode ['a'] = ['a'] := rfl
    have hsplit : splitOnce ['='] ('a' :: '=' :: exclamations count) =
        some (['a'], exclamations count) :=
      @splitOnce_separator '=' ['a'] (by decide) _
    simp [standardForm, hsplit, ha, formDecode_exclamations]
  rw [RackParameters.parse, hlength, decide_eq_false (Nat.not_lt.mpr h), failIf_false, ok_bind,
    List.splitOn_eq_singleton hplain, RackParameters.parseFrom, RackParameters.parsePiece, hpair]
  rfl

/-- The query is longer than what it is parsed from. -/
theorem exclamations_not_agrees {count : ℕ} (h : count + 2 ≤ rackBytesLimit)
    (hlong : rackBytesLimit < 3 * count) : ¬ Agrees ('a' :: '=' :: exclamations count) := by
  intro hagrees
  have hagain := hagrees _ (parse_exclamations h)
  have hquery : RackParameters.toQuery (fun _ => []) standardForm
      ⟨[(['a'], .scalar (exclamations count))]⟩ = 'a' :: '=' :: formSerialize (exclamations count) := by
    have ha : formSerialize ['a'] = ['a'] := rfl
    simp [RackParameters.toQuery, RackParameters.pairs, append, FormUrlencoded.piece, standardForm,
      List.intercalate, ha]
  have hlength := byteLen_formSerialize_exclamations count
  have hlimit : rackBytesLimit < byteLen ('a' :: '=' :: formSerialize (exclamations count)) := by
    rw [byteLen_cons, byteLen_cons]
    omega
  rw [hquery, RackParameters.parse, decide_eq_true hlimit] at hagain
  cases hagain

/-- A key with a bracket, neighbours that come together or are dropped when what was between them is
    null, keys in another order, and a query that is deeper or longer. -/
theorem not_agrees_samples :
    ¬ Agrees "a[b]c]=1".toList ∧ ¬ Agrees "a[][b]=1&a[]&a[][c]=2".toList ∧
    ¬ Agrees "a[][b]=1&a[][c]=2&a[][b]=3&a[][a]=4".toList ∧
    ¬ Agrees "a[][]=1&a[]&a[][]=2".toList ∧ ¬ Agrees "a[][b]=1&a[]&a[][]=2".toList ∧
    ¬ Agrees ('a' :: (List.replicate 30 "[b]".toList).flatten ++ "[]c=1".toList) ∧
    ¬ Agrees ('a' :: '=' :: exclamations 2000000) := by
  have hshort : 2000000 + 2 ≤ rackBytesLimit := by
    unfold rackBytesLimit
    omega
  have hlong : rackBytesLimit < 3 * 2000000 := by
    unfold rackBytesLimit
    omega
  exact ⟨not_agrees (by decide +kernel), not_agrees (by decide +kernel),
    not_agrees (by decide +kernel), not_agrees (by decide +kernel), not_agrees (by decide +kernel),
    not_agrees (by decide +kernel), exclamations_not_agrees hshort hlong⟩

end Rustodon.Web
