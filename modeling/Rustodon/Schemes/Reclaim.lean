import Mathlib.Data.List.Basic

/-! @scheme reclamation | name:Files that are live or to be reclaimed

    Files are written by those who may fail, and removed by jobs that are put down before the files
    are written. Nothing is lost as long as every file is live or named by a job to be done. -/

namespace Schemes.Reclaim

universe u

variable {π : Type u}

/-- Every file is live, or a job that is still to be done names it. -/
def Covered (live files : π → Prop) (jobs : List (List π)) : Prop :=
  ∀ p, files p → live p ∨ ∃ job ∈ jobs, p ∈ job

variable {live live' files files' : π → Prop} {jobs : List (List π)} {job : List π}

theorem covered_nil : Covered live files [] ↔ ∀ p, files p → live p := by
  simp [Covered]

/-- More jobs cover no less. -/
theorem Covered.jobs_mono {jobs' : List (List π)} (h : Covered live files jobs)
    (hjobs : ∀ job ∈ jobs, job ∈ jobs') : Covered live files jobs' := by
  intro p hp
  rcases h p hp with hlive | ⟨job, hjob, hmem⟩
  · exact .inl hlive
  · exact .inr ⟨job, hjobs job hjob, hmem⟩

theorem Covered.files_mono (h : Covered live files jobs) (hfiles : ∀ p, files' p → files p) :
    Covered live files' jobs :=
  fun p hp => h p (hfiles p hp)

/-- A file may be written once a job names it. -/
theorem Covered.create (h : Covered live files jobs) (hjob : job ∈ jobs)
    (hfiles : ∀ p, files' p → files p ∨ p ∈ job) : Covered live files' jobs := by
  intro p hp
  rcases hfiles p hp with hold | hnew
  · exact h p hold
  · exact .inr ⟨job, hjob, hnew⟩

/-- What is no longer live is to be named by a job. -/
theorem Covered.replace (h : Covered live files jobs)
    (hlive : ∀ p, live p → live' p ∨ ∃ job ∈ jobs, p ∈ job) : Covered live' files jobs := by
  intro p hp
  rcases h p hp with hold | hjob
  · exact hlive p hold
  · exact .inr hjob

/-- A job is done when all it names and is not live is gone. -/
theorem Covered.complete [BEq (List π)] [LawfulBEq (List π)] (h : Covered live files jobs)
    (hdone : ∀ p ∈ job, files p → live p) : Covered live files (jobs.erase job) := by
  intro p hp
  rcases h p hp with hlive | ⟨job', hjob', hmem⟩
  · exact .inl hlive
  · by_cases heq : job' = job
    · subst heq
      exact .inl (hdone p hmem hp)
    · exact .inr ⟨job', (List.mem_erase_of_ne heq).mpr hjob', hmem⟩

end Schemes.Reclaim
