import Mathlib.Data.List.Basic
import Mathlib.Tactic.SplitIfs

/-! @scheme first wins | name:Records of which the first one of each key is kept

    An entry is recorded unless its key is there already, so that recording a list in any number of
    passes keeps what recording it at once keeps. -/

namespace Schemes.FirstWins

universe u v

variable {α : Type u} {κ : Type v} [DecidableEq κ] (key : α → κ)

def record (entries : List α) (a : α) : List α :=
  if key a ∈ entries.map key then entries else entries ++ [a]

def recordAll (entries : List α) (as : List α) : List α := as.foldl (record key) entries

variable {key} {entries as bs : List α} {a : α}

@[simp] theorem recordAll_nil : recordAll key entries [] = entries := rfl

@[simp] theorem recordAll_cons :
    recordAll key entries (a :: as) = recordAll key (record key entries a) as := rfl

theorem recordAll_append :
    recordAll key entries (as ++ bs) = recordAll key (recordAll key entries as) bs :=
  List.foldl_append

theorem record_of_mem (h : key a ∈ entries.map key) : record key entries a = entries := if_pos h

theorem record_of_not_mem (h : key a ∉ entries.map key) :
    record key entries a = entries ++ [a] := if_neg h

theorem mem_keys_record {k : κ} :
    k ∈ (record key entries a).map key ↔ k ∈ entries.map key ∨ k = key a := by
  rw [record]
  split_ifs with h
  · constructor
    · exact .inl
    · rintro (hk | rfl)
      · exact hk
      · exact h
  · simp

/-- The keys of a record are those that were there and those of what has been recorded. -/
theorem mem_keys_recordAll {k : κ} :
    k ∈ (recordAll key entries as).map key ↔ k ∈ entries.map key ∨ k ∈ as.map key := by
  induction as generalizing entries with
  | nil => simp
  | cons a as ih => rw [recordAll_cons, ih, mem_keys_record, List.map_cons, List.mem_cons, or_assoc]

/-- Nothing is recorded when all keys are there. -/
theorem recordAll_of_forall_mem (h : ∀ a ∈ as, key a ∈ entries.map key) :
    recordAll key entries as = entries := by
  induction as with
  | nil => rfl
  | cons a as ih =>
    rw [recordAll_cons, record_of_mem (h a List.mem_cons_self)]
    exact ih fun b hb => h b (List.mem_cons_of_mem a hb)

/-- A repetition may be dropped. -/
theorem recordAll_drop (h : key a ∈ as.map key) :
    recordAll key entries (as ++ a :: bs) = recordAll key entries (as ++ bs) := by
  rw [recordAll_append, recordAll_cons, record_of_mem (mem_keys_recordAll.mpr (.inr h)),
    ← recordAll_append]

end Schemes.FirstWins
