import Mathlib.Data.List.Basic
import Mathlib.Order.MinMax
import Mathlib.Tactic.SplitIfs

/-! @scheme log with cursors | name:A log that is read by cursors

    Entries have keys that only grow as they become visible, and old entries are deleted. A reader
    keeps a cursor and takes the entries behind it in batches. What was visible at some moment is
    told apart by the last key of that moment, whatever has been deleted since. -/

namespace Schemes.Cursors

universe u

variable {α : Type u} {key : α → ℕ}

/-- The largest key, but at least `start`. -/
def greatest (key : α → ℕ) (start : ℕ) (entries : List α) : ℕ :=
  entries.foldr (fun a top => max (key a) top) start

theorem start_le_greatest (key : α → ℕ) (start : ℕ) : ∀ entries : List α,
    start ≤ greatest key start entries
  | [] => le_rfl
  | _ :: entries => le_max_iff.mpr (.inr (start_le_greatest key start entries))

theorem le_greatest (start : ℕ) {a : α} {entries : List α} (h : a ∈ entries) :
    key a ≤ greatest key start entries := by
  induction entries with
  | nil => cases h
  | cons b entries ih =>
    rcases List.mem_cons.mp h with rfl | h
    · exact le_max_left _ _
    · exact (ih h).trans (le_max_right _ _)

theorem greatest_le {start bound : ℕ} {entries : List α} (hstart : start ≤ bound)
    (hentries : ∀ a ∈ entries, key a ≤ bound) : greatest key start entries ≤ bound := by
  induction entries with
  | nil => exact hstart
  | cons b entries ih =>
    exact max_le (hentries b List.mem_cons_self)
      (ih fun a ha => hentries a (List.mem_cons_of_mem _ ha))

/-- The retained entries in the order of their keys, and the largest key there has ever been. -/
structure Log (α : Type u) (key : α → ℕ) where
  entries : List α
  last : ℕ
  ascending : entries.Pairwise fun a b => key a < key b
  le_last : ∀ a ∈ entries, key a ≤ last

/-- Entries become visible behind everything that has been visible before. -/
def Log.append (log : Log α key) (entries : List α) : Option (Log α key) :=
  if h : entries.Pairwise (fun a b => key a < key b) ∧ ∀ a ∈ entries, log.last < key a then
    some
      { entries := log.entries ++ entries
        last := greatest key log.last entries
        ascending := List.pairwise_append.mpr ⟨log.ascending, h.1,
          fun a ha b hb => (log.le_last a ha).trans_lt (h.2 b hb)⟩
        le_last := fun a ha => (List.mem_append.mp ha).elim
          (fun ha => (log.le_last a ha).trans (start_le_greatest key log.last entries))
          (le_greatest log.last) }
  else none

/-- Entries are deleted. -/
def Log.delete (log : Log α key) (deleted : α → Bool) : Log α key where
  entries := log.entries.filter fun a => !deleted a
  last := log.last
  ascending := log.ascending.sublist List.filter_sublist
  le_last a ha := log.le_last a (List.mem_filter.mp ha).1

/-- The largest key that is retained, or zero. -/
def Log.top (log : Log α key) : ℕ := greatest key 0 log.entries

/-- The first entries behind a cursor. -/
def Log.after (log : Log α key) (cursor limit : ℕ) : List α :=
  (log.entries.filter fun a => cursor < key a).take limit

/-! ### Cursors and batches -/

variable {log log' : Log α key}

theorem Log.le_top {a : α} (h : a ∈ log.entries) : key a ≤ log.top := le_greatest 0 h

theorem Log.top_le_last (log : Log α key) : log.top ≤ log.last :=
  greatest_le (Nat.zero_le _) log.le_last

theorem Log.mem_after {cursor limit : ℕ} {a : α} (h : a ∈ log.after cursor limit) :
    a ∈ log.entries ∧ cursor < key a := by
  simpa using List.mem_filter.mp (List.mem_of_mem_take h)

theorem Log.after_ascending (log : Log α key) (cursor limit : ℕ) :
    (log.after cursor limit).Pairwise fun a b => key a < key b :=
  log.ascending.sublist ((List.take_sublist _ _).trans List.filter_sublist)

/-- What comes before an element of a prefix is in the prefix. -/
theorem mem_of_prefix {entries handled : List α} (h : handled <+: entries)
    (hascending : entries.Pairwise fun a b => key a < key b) {a b : α} (ha : a ∈ entries)
    (hb : b ∈ handled) (hle : key a ≤ key b) : a ∈ handled := by
  obtain ⟨rest, rfl⟩ := h
  rcases List.mem_append.mp ha with ha | ha
  · exact ha
  · exact absurd ((List.pairwise_append.mp hascending).2.2 b hb a ha) (Nat.not_lt_of_le hle)

/-- What has been handled of a batch has every retained entry up to its last one. -/
theorem Log.mem_handled {cursor limit : ℕ} {handled : List α}
    (h : handled <+: log.after cursor limit) {a b : α} (ha : a ∈ log.entries)
    (hcursor : cursor < key a) (hb : b ∈ handled) (hle : key a ≤ key b) : a ∈ handled := by
  have hbehind : handled <+: log.entries.filter fun a => cursor < key a :=
    h.trans (List.take_prefix _ _)
  exact mem_of_prefix hbehind (log.ascending.sublist List.filter_sublist)
    (List.mem_filter.mpr ⟨ha, decide_eq_true hcursor⟩) hb hle

/-- A whole batch reaches every retained entry that has fewer than `limit` others before it. -/
theorem Log.mem_after_of_count {cursor limit : ℕ} {a : α} (ha : a ∈ log.entries)
    (hcursor : cursor < key a)
    (hcount : (log.entries.countP fun b => cursor < key b && key b < key a) < limit) :
    a ∈ log.after cursor limit := by
  obtain ⟨before, behind, heq⟩ := List.append_of_mem
    (List.mem_filter.mpr ⟨ha, decide_eq_true hcursor⟩ : a ∈ log.entries.filter fun a => cursor < key a)
  have hascending : (before ++ a :: behind).Pairwise fun a b => key a < key b :=
    heq ▸ log.ascending.sublist List.filter_sublist
  have hlength : before.length ≤ log.entries.countP fun b => cursor < key b && key b < key a := by
    have hbefore : ∀ b ∈ before, key b < key a := fun b hb =>
      (List.pairwise_append.mp hascending).2.2 b hb a List.mem_cons_self
    have hsub : before.Sublist (log.entries.filter fun b => cursor < key b && key b < key a) := by
      have hfilter : (log.entries.filter fun b => cursor < key b && key b < key a) =
          (before ++ a :: behind).filter fun b => key b < key a := by
        rw [← heq, List.filter_filter]
        exact List.filter_congr fun b _ => Bool.and_comm _ _
      rw [hfilter, List.filter_append]
      have hself : before.filter (fun b => key b < key a) = before :=
        List.filter_eq_self.mpr fun b hb => decide_eq_true (hbefore b hb)
      rw [hself]
      exact List.sublist_append_left ..
    rw [List.countP_eq_length_filter]
    exact hsub.length_le
  rw [Log.after, heq, List.take_append]
  refine List.mem_append_right _ ?_
  obtain ⟨n, hn⟩ : ∃ n, limit - before.length = n + 1 := ⟨limit - before.length - 1, by omega⟩
  rw [hn, List.take_succ_cons]
  exact List.mem_cons_self

/-- Where a reader is that has taken the whole batch. -/
def Log.reached (log : Log α key) (cursor limit : ℕ) : ℕ :=
  ((log.after cursor limit).getLast?.map key).getD cursor

theorem Log.le_reached {cursor limit : ℕ} {a : α} (h : a ∈ log.after cursor limit) :
    key a ≤ log.reached cursor limit := by
  rw [Log.reached]
  rcases List.eq_nil_or_concat (log.after cursor limit) with hbatch | ⟨before, b, hbatch⟩
  · rw [hbatch] at h
    cases h
  · have hascending := log.after_ascending cursor limit
    rw [List.concat_eq_append] at hbatch
    rw [hbatch] at h hascending ⊢
    simp only [List.getLast?_append, List.getLast?_singleton, Option.some_or, Option.map_some,
      Option.getD_some]
    rcases List.mem_append.mp h with h | h
    · exact ((List.pairwise_append.mp hascending).2.2 a h b (List.mem_singleton_self b)).le
    · exact (congrArg key (List.mem_singleton.mp h)).le

/-- The reader is at an entry of the batch, or where it was when there is none. -/
theorem Log.reached_cases (log : Log α key) (cursor limit : ℕ) :
    log.reached cursor limit = cursor ∨
      ∃ a ∈ log.after cursor limit, log.reached cursor limit = key a := by
  rw [Log.reached]
  cases hlast : (log.after cursor limit).getLast? with
  | none => exact .inl rfl
  | some a => exact .inr ⟨a, List.mem_of_getLast? hlast, rfl⟩

theorem Log.cursor_le_reached (log : Log α key) (cursor limit : ℕ) :
    cursor ≤ log.reached cursor limit := by
  rcases log.reached_cases cursor limit with h | ⟨a, ha, h⟩
  · exact h.ge
  · exact h ▸ (Log.mem_after ha).2.le

theorem Log.reached_le_last {cursor limit : ℕ} (h : cursor ≤ log.last) :
    log.reached cursor limit ≤ log.last := by
  rcases log.reached_cases cursor limit with hreached | ⟨a, ha, hreached⟩
  · exact hreached.trans_le h
  · exact hreached.trans_le (log.le_last a (Log.mem_after ha).1)

/-- A batch has every retained entry between where the reader was and where it is. -/
theorem Log.mem_after_of_le_reached {cursor limit : ℕ} {a : α} (ha : a ∈ log.entries)
    (hcursor : cursor < key a) (hreached : key a ≤ log.reached cursor limit) :
    a ∈ log.after cursor limit := by
  rcases log.reached_cases cursor limit with h | ⟨b, hb, h⟩
  · omega
  · exact Log.mem_handled (List.prefix_refl _) ha hcursor hb (h ▸ hreached)

/-! ### Later logs -/

/-- A later log has nothing new but behind what was there. -/
structure Later (log log' : Log α key) : Prop where
  last : log.last ≤ log'.last
  entries : ∀ a ∈ log'.entries, a ∈ log.entries ∨ log.last < key a

theorem Later.refl (log : Log α key) : Later log log := ⟨le_rfl, fun _ h => .inl h⟩

theorem Later.trans {log'' : Log α key} (h : Later log log') (h' : Later log' log'') :
    Later log log'' where
  last := h.last.trans h'.last
  entries a ha := by
    rcases h'.entries a ha with ha | hnew
    · exact h.entries a ha
    · exact .inr (h.last.trans_lt hnew)

theorem Later.append {entries : List α} (h : log.append entries = some log') : Later log log' := by
  rw [Log.append] at h
  split_ifs at h with hnew
  obtain rfl := Option.some.inj h
  exact ⟨start_le_greatest key log.last entries,
    fun a ha => (List.mem_append.mp ha).imp_right (hnew.2 a)⟩

theorem Later.delete (log : Log α key) (deleted : α → Bool) : Later log (log.delete deleted) :=
  ⟨le_rfl, fun _ ha => .inl (List.mem_filter.mp ha).1⟩

end Schemes.Cursors
