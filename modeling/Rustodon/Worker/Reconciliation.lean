import Rustodon.Schemes.Runs
import Rustodon.Worker.PollExpiration

/-! @src worker/poll_expiration.rs | name:Completeness of the reconciliation | scheme:pages |
    family:worker

    The jobs of the scan in the durable queue. Every job that is ever there has a cursor up to which
    everything has been reconciled, which a segment moves on and a continuation takes over; and a
    segment that ends without a continuation has left nothing behind up to its high-water mark. -/

namespace Rustodon.PollExpiration
open Schemes.Checked Schemes.Json Schemes.Pages Schemes.Runs
open Rustodon.Queue (ClaimedJob Event Job JobError JobSpec Lane Statement claimedJob complete
  conflicts deadLetter retry)

/-! ### The jobs -/

/-- The jobs of the scan, those that handlers have claimed, what handlers have returned, and the
    calls that have succeeded so far. -/
structure State where
  now : ℤ
  jobs : List Job
  nextJobId : ℕ
  running : List ClaimedJob
  returned : List (ClaimedJob × Handled Unit)
  reconciled : List RepairCall

def initial (now : ℤ) : State := ⟨now, [], 1, [], [], []⟩

/-- Whether `enqueue_exact` finds the row that it wants. -/
def enqueueExact (jobs : List Job) (spec : JobSpec) : Bool :=
  spec.validate.isOk &&
    match jobs.find? (conflicts spec) with
    | none => true
    | some row =>
      decide (row.lane = spec.lane) && decide (row.kind = spec.kind) &&
        decide (row.arguments = spec.arguments) && decide (row.logicalKey = spec.logicalKey) &&
        decide (row.runAt ≤ spec.runAt) && decide (row.attempts < row.maxAttempts) &&
        decide (row.maxAttempts = spec.maxAttempts.toInt)

def State.insert (s : State) (spec : JobSpec) : State :=
  if s.jobs.any (conflicts spec) then s
  else { s with jobs := s.jobs ++ [Job.new s.nextJobId spec], nextJobId := s.nextJobId + 1 }

def State.apply (s : State) (statement : Statement) : State :=
  { s with jobs := s.jobs.filterMap statement.effect }

inductive Op where
  | advance (now : ℤ)
  | schedule (spec : JobSpec)
  | claim (id : ℕ) (leaseOwner : String) (leaseMilliseconds : ℤ)
  | execute (i : ℕ) (env : SegmentEnv)
  | acknowledge (i : ℕ) (runAt : ℤ)

variable (jsonbEq : Value → Value → Bool) (table : Table) {τ : Type} (clock : Clock τ)

def runSegment (jobs : List Job) (env : SegmentEnv) (job : ClaimedJob) : SegmentRun :=
  match job.logicalKey with
  | none =>
    ⟨[], none, .error (.permanent "poll expiration reconciliation logical key is missing")⟩
  | some logicalKey =>
    reconcilePollExpirations jsonbEq table clock (enqueueExact jobs) env job.arguments logicalKey
      job.attempt

/-- A scan starts at cursor 0, when no other job of its kind is live. A handler runs with what has
    been claimed, and its return is acknowledged later or never. -/
def State.step (s : State) : Op → Option State
  | .advance now => if s.now ≤ now then some { s with now := now } else none
  | .schedule spec =>
    if spec.kind = pollExpirationReconcileJobKind ∧ afterPollIdOf spec.arguments = .ok 0 ∧
        s.jobs.all (fun job => !job.live) then
      some (s.insert spec)
    else none
  | .claim id leaseOwner leaseMilliseconds =>
    match s.jobs.find? fun job => decide (job.id = id) && job.live && !job.held s.now with
    | none => none
    | some found =>
      let row := found.claimed leaseOwner s.now leaseMilliseconds
      some { s with
        jobs := s.jobs.map fun job => if job.id = id then row else job
        running := s.running ++
          [claimedJob row leaseOwner (s.now + leaseMilliseconds * 1000)] }
  | .execute i env =>
    match s.running[i]? with
    | none => none
    | some job =>
      let run := runSegment jsonbEq table clock s.jobs env job
      let s := match run.continuation with
        | none => s
        | some spec => s.insert spec
      some { s with
        running := s.running.eraseIdx i
        returned := s.returned ++ [(job, run.result)]
        reconciled := s.reconciled ++ run.reconciled }
  | .acknowledge i runAt =>
    match s.returned[i]? with
    | none => none
    | some (job, result) =>
      let s := { s with returned := s.returned.eraseIdx i }
      match result with
      | .ok () => some (s.apply (complete s.jobs s.now job.id job.leaseOwner job.generation))
      | .error (.retry message) => some (s.apply (retry s.jobs s.now job runAt message))
      | .error (.permanent message) => some (s.apply (deadLetter s.jobs s.now job message))

def Step (s : State) (op : Op) (t : State) : Prop := s.step jsonbEq table clock op = some t

/-! ### Pages -/

variable {jsonbEq table clock}

theorem candidates_nodup (table : Table) : (table.candidates.map CandidateRow.pollId).Nodup := by
  refine table.ids_nodup.sublist ?_
  rw [Table.candidates]
  induction table.polls with
  | nil => exact .slnil
  | cons poll polls ih =>
    rw [List.map_cons]
    cases hrow : poll.candidateRow with
    | none =>
      rw [List.filterMap_cons_none hrow]
      exact ih.cons _
    | some row =>
      have hid : row.pollId = poll.id := by
        unfold Poll.candidateRow at hrow
        split_ifs at hrow
        obtain ⟨expiresAt, -, rfl⟩ := Option.map_eq_some_iff.mp hrow
        rfl
      rw [List.filterMap_cons_some hrow, List.map_cons, hid]
      exact ih.cons_cons _

/-- A row of a page is that of a candidate, and it is only terminal if the candidate is. -/
structure IsRow (jsonbEq : Value → Value → Bool) (table : Table) (row : CandidateRow)
    (scanned : ScanRow) : Prop where
  pollId : scanned.pollId = row.pollId
  repairCall : ∀ activation,
    scanned.repairCall activation = (row.scanRow none).repairCall activation
  terminal : scanned.terminal = .ok true → table.isTerminal jsonbEq row = true

/-- The rest of a page behind a cursor. Every candidate that is not terminal is there, or the page
    is full and the candidate behind it. -/
structure PageRest (jsonbEq : Value → Value → Bool) (table : Table) (full : Prop) (lo hi : ℤ)
    (rows : List ScanRow) : Prop where
  ascending : rows.Pairwise fun r r' => r.pollId < r'.pollId
  within : ∀ r ∈ rows, lo < r.pollId ∧ r.pollId ≤ hi
  complete : ∀ row ∈ table.candidates, table.isTerminal jsonbEq row = false → lo < row.pollId →
    row.pollId ≤ hi →
      (∃ r ∈ rows, IsRow jsonbEq table row r) ∨ full ∧ ∀ r ∈ rows, r.pollId < row.pollId

variable {lo hi : ℤ} {rows : List ScanRow}

theorem optimizedPage_rest :
    PageRest jsonbEq table ((optimizedPage jsonbEq table lo hi).length = repairPageSize) lo hi
      (optimizedPage jsonbEq table lo hi) := by
  have hnodup : ((table.candidates.filter fun row => !table.isTerminal jsonbEq row).map
      CandidateRow.pollId).Nodup :=
    (candidates_nodup table).sublist (List.filter_sublist.map _)
  refine ⟨List.pairwise_map.mpr (page_pairwise hnodup), ?_, ?_⟩
  · intro r hr
    obtain ⟨row, hrow, rfl⟩ := List.mem_map.mp hr
    exact (mem_page hrow).2
  · intro row hrow hterminal hlo hhi
    have hmem : row ∈ table.candidates.filter fun row => !table.isTerminal jsonbEq row := by
      simp [hrow, hterminal]
    rcases @page_complete _ _ repairPageSize _ _ _ _ hnodup hmem hlo hhi with hpage | ⟨hfull, hbehind⟩
    · exact .inl ⟨_, List.mem_map_of_mem hpage, rfl, fun _ => rfl, fun h => by cases h⟩
    · refine .inr ⟨by rw [optimizedPage, List.length_map, hfull], fun r hr => ?_⟩
      obtain ⟨row', hrow', rfl⟩ := List.mem_map.mp hr
      exact hbehind row' hrow'

theorem classify_ids (rows : List CandidateRow) : ∀ markers : List Event,
    (classify rows markers).map ScanRow.pollId = rows.map CandidateRow.pollId := by
  induction rows with
  | nil => intro _; rfl
  | cons row rows ih =>
    intro markers
    rw [classify, List.map_cons, List.map_cons, ih]
    rfl

/-- A row has at most a marker of its own key. -/
theorem classify_markers {row : CandidateRow} {rows : List CandidateRow} (h : row ∈ rows) :
    ∀ markers : List Event, ∃ marker, row.scanRow marker ∈ classify rows markers ∧
      ∀ found, marker = some found → ∃ event ∈ markers, event.logicalKey = some row.effectKey ∧
        found = (event.payload, event.dispatchedAt) := by
  induction rows with
  | nil => cases h
  | cons first rows ih =>
    intro markers
    rcases List.mem_cons.mp h with rfl | h
    · refine ⟨_, List.mem_cons_self, fun found hfound => ?_⟩
      obtain ⟨event, hevent, rfl⟩ := Option.map_eq_some_iff.mp hfound
      have hkey := List.find?_some hevent
      exact ⟨event, List.mem_reverse.mp (List.mem_of_find?_eq_some hevent),
        of_decide_eq_true hkey, rfl⟩
    · obtain ⟨marker, hmem, hmarker⟩ :=
        ih h (markers.filter fun marker => marker.logicalKey ≠ some first.effectKey)
      refine ⟨marker, List.mem_cons_of_mem _ hmem, fun found hfound => ?_⟩
      obtain ⟨event, hevent, hkey⟩ := hmarker found hfound
      exact ⟨event, (List.mem_filter.mp hevent).1, hkey⟩

/-- A dispatched marker with a payload of its poll. -/
theorem validateDispatched_ok {payload : Value} {dispatchedAt : Option ℤ} {pollId generation : ℤ}
    {outcome : PollExpirationEffectOutcome}
    (h : validateDispatchedPollExpirationEffect payload dispatchedAt pollId generation =
      .ok outcome) :
    dispatchedAt.isSome = true ∧ outcome ∈ outcomes ∧
      payload = pollExpirationEffectPayload pollId generation outcome := by
  obtain ⟨_, hdispatched, h⟩ := bind_eq_ok h
  have hfind := okOr_eq_ok h
  have hpayload := List.find?_some hfind
  have hnone := failIf_eq_ok hdispatched
  exact ⟨by simpa using hnone, List.mem_of_find?_eq_some hfind, of_decide_eq_true hpayload⟩

theorem terminal_of_marker (hrefl : ∀ value, jsonbEq value value = true) {row : CandidateRow}
    {marker : Option (Value × Option ℤ)}
    (hmarker : ∀ found, marker = some found → ∃ event ∈ table.markers,
      event.kind = pollExpirationEffectKind ∧ event.logicalKey = some row.effectKey ∧
        found = (event.payload, event.dispatchedAt))
    (h : (row.scanRow marker).terminal = .ok true) : table.isTerminal jsonbEq row = true := by
  cases marker with
  | none => cases h
  | some found =>
    obtain ⟨event, hevent, hkind, hkey, rfl⟩ := hmarker found rfl
    simp only [ScanRow.terminal, CandidateRow.scanRow] at h
    cases hvalid : validateDispatchedPollExpirationEffect event.payload event.dispatchedAt
        row.pollId row.expiresAt with
    | error e => rw [hvalid] at h; cases h
    | ok outcome =>
      obtain ⟨hdispatched, houtcome, hpayload⟩ := validateDispatched_ok hvalid
      refine List.any_eq_true.mpr ⟨event, hevent, ?_⟩
      have hany : (outcomes.any fun outcome => jsonbEq event.payload
          (pollExpirationEffectPayload row.pollId row.expiresAt outcome)) = true :=
        List.any_eq_true.mpr ⟨outcome, houtcome, by rw [hpayload]; exact hrefl _⟩
      simp [hkind, hkey, hdispatched, hany]

theorem fallbackPage_rest (hrefl : ∀ value, jsonbEq value value = true) :
    PageRest jsonbEq table ((fallbackPage table lo hi).length = repairPageSize) lo hi
      (fallbackPage table lo hi) := by
  have hids := classify_ids (page CandidateRow.pollId repairPageSize lo hi table.candidates)
  have hpage := @page_pairwise _ _ repairPageSize lo hi _ (candidates_nodup table)
  have hmem : ∀ r ∈ fallbackPage table lo hi, ∃ row ∈ page CandidateRow.pollId repairPageSize lo hi
      table.candidates, row.pollId = r.pollId := fun r hr =>
    List.mem_map.mp (hids _ ▸ List.mem_map_of_mem hr)
  refine ⟨?_, ?_, ?_⟩
  · have hmap : ((fallbackPage table lo hi).map ScanRow.pollId).Pairwise (· < ·) := by
      rw [fallbackPage, hids]
      exact List.pairwise_map.mpr hpage
    exact List.pairwise_map.mp hmap
  · intro r hr
    obtain ⟨row, hrow, hid⟩ := hmem r hr
    rw [← hid]
    exact (mem_page hrow).2
  · intro row hrow hterminal hlo hhi
    rcases @page_complete _ _ repairPageSize _ _ _ _ (candidates_nodup table) hrow hlo hhi with
      hrow | ⟨hfull, hbehind⟩
    · obtain ⟨marker, hclassified, hmarker⟩ := classify_markers hrow
        (table.markers.filter fun marker => decide (marker.kind = pollExpirationEffectKind) &&
          marker.logicalKey.any ((page CandidateRow.pollId repairPageSize lo hi
            table.candidates).map CandidateRow.effectKey).contains)
      refine .inl ⟨_, hclassified, rfl, fun _ => rfl, terminal_of_marker hrefl ?_⟩
      intro found hfound
      obtain ⟨event, hevent, hkey⟩ := hmarker found hfound
      obtain ⟨hevent, hkind⟩ := List.mem_filter.mp hevent
      exact ⟨event, hevent, of_decide_eq_true (Bool.and_eq_true _ _ ▸ hkind).1, hkey⟩
    · refine .inr ⟨?_, fun r hr => ?_⟩
      · have hlength := congrArg List.length (hids (table.markers.filter fun marker =>
          decide (marker.kind = pollExpirationEffectKind) &&
            marker.logicalKey.any ((page CandidateRow.pollId repairPageSize lo hi
              table.candidates).map CandidateRow.effectKey).contains))
        rw [List.length_map, List.length_map, hfull] at hlength
        exact hlength
      · obtain ⟨row', hrow', hid⟩ := hmem r hr
        exact hid ▸ hbehind row' hrow'

/-! ### The loops -/

/-- `reconcile_poll_expiration` has succeeded for a candidate. -/
def CandidateRow.Reconciled (row : CandidateRow) (reconciled : List RepairCall) : Prop :=
  ∃ activation, (row.scanRow none).repairCall activation ∈ reconciled

variable (jsonbEq table) in
/-- Every candidate up to an identifier has been reconciled, if it is not terminal. -/
def Covered (reconciled : List RepairCall) (through : ℤ) : Prop :=
  ∀ row ∈ table.candidates, table.isTerminal jsonbEq row = false → 0 < row.pollId →
    row.pollId ≤ through → row.Reconciled reconciled

theorem Covered.mono {reconciled reconciled' : List RepairCall} {through : ℤ}
    (h : Covered jsonbEq table reconciled through) (hsub : reconciled ⊆ reconciled') :
    Covered jsonbEq table reconciled' through := by
  intro row hrow hterminal hpos hle
  obtain ⟨activation, hmem⟩ := h row hrow hterminal hpos hle
  exact ⟨activation, hsub hmem⟩

theorem covered_zero (reconciled : List RepairCall) : Covered jsonbEq table reconciled 0 :=
  fun _ _ _ hpos hle => absurd (hpos.trans_le hle) (lt_irrefl 0)

variable {full : Prop} {before : List RepairCall}

/-- The first row of a page is what comes next. -/
theorem PageRest.advance {r : ScanRow} (h : PageRest jsonbEq table full lo hi (r :: rows))
    {reconciled : List RepairCall} (hcovered : Covered jsonbEq table reconciled lo)
    (hrow : ∀ row, IsRow jsonbEq table row r → table.isTerminal jsonbEq row = false →
      row.Reconciled reconciled) :
    Covered jsonbEq table reconciled r.pollId ∧ PageRest jsonbEq table full r.pollId hi rows := by
  obtain ⟨hfirst, hrest⟩ := List.pairwise_cons.mp h.ascending
  have hwithin := h.within r List.mem_cons_self
  constructor
  · intro row hmem hterminal hpos hle
    rcases lt_or_ge lo row.pollId with hlo | hlo
    · rcases h.complete row hmem hterminal hlo (hle.trans hwithin.2) with ⟨r', hr', his⟩ | ⟨-, hbehind⟩
      · rcases List.mem_cons.mp hr' with rfl | hr'
        · exact hrow row his hterminal
        · have hlt := hfirst r' hr'
          rw [his.pollId] at hlt
          omega
      · have hlt := hbehind r List.mem_cons_self
        omega
    · exact hcovered row hmem hterminal hpos hlo
  · refine ⟨hrest, fun r' hr' => ⟨hfirst r' hr', (h.within r' (List.mem_cons_of_mem _ hr')).2⟩, ?_⟩
    intro row hmem hterminal hlo hhi
    rcases h.complete row hmem hterminal (hwithin.1.trans hlo) hhi with ⟨r', hr', his⟩ | ⟨hfull, hbehind⟩
    · rcases List.mem_cons.mp hr' with rfl | hr'
      · exact absurd his.pollId hlo.ne
      · exact .inl ⟨r', hr', his⟩
    · exact .inr ⟨hfull, fun r' hr' => hbehind r' (List.mem_cons_of_mem _ hr')⟩

/-- What is known of the variables of the loops. -/
structure ScanInv (jsonbEq : Value → Value → Bool) (table : Table) (before : List RepairCall)
    (lo hi : ℤ) (scan : Scan) : Prop where
  lower : lo ≤ scan.cursor
  upper : scan.cursor ≤ hi
  covered : Covered jsonbEq table (before ++ scan.reconciled) scan.cursor

/-- The loop over rows keeps the invariant; it is left early with work to do or with a failure, and
    otherwise nothing is left of the page. -/
theorem scanRows_spec {env : PageEnv} {activation : ℤ} :
    ∀ {rows : List ScanRow} {i : ℕ} {scan : Scan}, ScanInv jsonbEq table before lo hi scan →
      PageRest jsonbEq table full scan.cursor hi rows →
      ScanInv jsonbEq table before lo hi (scanRows env activation i rows scan).1 ∧
        match (scanRows env activation i rows scan).2 with
        | none => PageRest jsonbEq table full (scanRows env activation i rows scan).1.cursor hi []
        | some exit => exit = .bounded ∨ ∃ failure, exit = .failed failure := by
  intro rows
  induction rows with
  | nil => exact fun hinv hpage => ⟨hinv, hpage⟩
  | cons r rows ih =>
    intro i scan hinv hpage
    have hwithin := hpage.within r List.mem_cons_self
    rw [scanRows]
    split_ifs with hexpired
    · exact ⟨hinv, .inl rfl⟩
    · cases hterminal : r.terminal with
      | error failure => exact ⟨hinv, .inr ⟨failure, rfl⟩⟩
      | ok terminal =>
        simp only
        cases hstep : pollExpirationScanStep terminal scan.candidatesReconciled with
        | stop => exact ⟨hinv, .inl rfl⟩
        | advanceTerminal =>
          have hterminal' : terminal = true := by
            unfold pollExpirationScanStep at hstep
            split_ifs at hstep with h
            exact h
          obtain ⟨hcovered, hrest⟩ := hpage.advance hinv.covered fun row his hnot => by
            rw [his.terminal (hterminal' ▸ hterminal)] at hnot
            cases hnot
          exact ih ⟨hinv.lower.trans hwithin.1.le, hwithin.2, hcovered⟩ hrest
        | reconcile =>
          simp only
          cases hrepair : env.repair i with
          | failed => exact ⟨hinv, .inr ⟨_, rfl⟩⟩
          | timedOut => exact ⟨hinv, .inl rfl⟩
          | succeeded =>
            have hmono : Covered jsonbEq table
                (before ++ (scan.reconciled ++ [r.repairCall activation])) scan.cursor :=
              hinv.covered.mono (by rw [← List.append_assoc]; exact List.subset_append_left _ _)
            obtain ⟨hcovered, hrest⟩ := hpage.advance hmono fun row his _ =>
              ⟨activation, by rw [← his.repairCall]; simp⟩
            exact ih ⟨hinv.lower.trans hwithin.1.le, hwithin.2, hcovered⟩ hrest

/-- Nothing is left behind a page that is not full. -/
theorem PageRest.covered {cursor : ℤ} (h : PageRest jsonbEq table full cursor hi [])
    (hshort : ¬ full) {reconciled : List RepairCall}
    (hcovered : Covered jsonbEq table reconciled cursor) : Covered jsonbEq table reconciled hi := by
  intro row hrow hterminal hpos hle
  rcases lt_or_ge cursor row.pollId with hlo | hlo
  · rcases h.complete row hrow hterminal hlo hle with ⟨r, hr, -⟩ | ⟨hfull, -⟩
    · cases hr
    · exact absurd hfull hshort
  · exact hcovered row hrow hterminal hpos hlo

theorem nextPage_rest (hrefl : ∀ value, jsonbEq value value = true) {env : PageEnv}
    {mode : PollExpirationScanMode} {isFallback : Bool}
    (h : nextPage jsonbEq table env mode lo hi = .ok (some (rows, isFallback))) :
    PageRest jsonbEq table (rows.length = repairPageSize) lo hi rows := by
  have hfallback : ∀ {rows isFallback}, fallbackWithinWorkTime table env lo hi =
      .ok (some (rows, isFallback)) →
        PageRest jsonbEq table (rows.length = repairPageSize) lo hi rows := by
    intro rows isFallback h
    unfold fallbackWithinWorkTime at h
    split at h
    · obtain ⟨rfl, rfl⟩ := Prod.mk.inj (Option.some.inj (Except.ok.inj h))
      exact fallbackPage_rest hrefl
    · cases h
    · cases h
  cases mode with
  | raw => exact hfallback h
  | optimized =>
    unfold nextPage at h
    simp only at h
    split at h
    · obtain ⟨rfl, rfl⟩ := Prod.mk.inj (Option.some.inj (Except.ok.inj h))
      exact optimizedPage_rest
    · exact hfallback h
    · cases h
    · cases h

/-- The loop over pages keeps the invariant, and is only left as exhausted with nothing left. -/
theorem scanPages_spec (hrefl : ∀ value, jsonbEq value value = true) {env : ℕ → PageEnv}
    {activation : ℤ} {mode : PollExpirationScanMode} {left : ℕ} :
    ∀ {pagesScanned : ℕ} {scan : Scan}, ScanInv jsonbEq table before lo hi scan →
      ∀ {scan' exit}, scanPages jsonbEq table env activation mode hi left pagesScanned scan =
        (scan', exit) →
      ScanInv jsonbEq table before lo hi scan' ∧
        (exit = .exhausted → Covered jsonbEq table (before ++ scan'.reconciled) hi) := by
  induction left with
  | zero =>
    intro pagesScanned scan hinv scan' exit h
    obtain ⟨rfl, rfl⟩ := Prod.mk.inj h
    exact ⟨hinv, fun h => nomatch h⟩
  | succ left ih =>
    intro pagesScanned scan hinv scan' exit h
    rw [scanPages] at h
    split at h
    · obtain ⟨rfl, rfl⟩ := Prod.mk.inj h
      exact ⟨hinv, fun h => nomatch h⟩
    split at h
    · obtain ⟨rfl, rfl⟩ := Prod.mk.inj h
      exact ⟨hinv, fun h => nomatch h⟩
    cases hpage : nextPage jsonbEq table (env pagesScanned) mode scan.cursor hi with
    | error failure =>
      rw [hpage] at h
      obtain ⟨rfl, rfl⟩ := Prod.mk.inj h
      exact ⟨hinv, fun h => nomatch h⟩
    | ok found =>
      rw [hpage] at h
      cases found with
      | none =>
        obtain ⟨rfl, rfl⟩ := Prod.mk.inj h
        exact ⟨hinv, fun h => nomatch h⟩
      | some found =>
        obtain ⟨rows, isFallback⟩ := found
        have hrest := nextPage_rest hrefl hpage
        simp only at h
        split at h
        · rename_i hempty
          obtain ⟨rfl, rfl⟩ := Prod.mk.inj h
          obtain rfl := List.isEmpty_iff.mp hempty
          exact ⟨hinv, fun _ => hrest.covered (by decide) hinv.covered⟩
        obtain ⟨hinv', hleft⟩ := @scanRows_spec jsonbEq table lo hi _ before (env pagesScanned)
          activation rows 0 scan hinv hrest
        generalize hscan : scanRows (env pagesScanned) activation 0 rows scan = scanned
          at h hinv' hleft
        obtain ⟨scanned, rowsExit⟩ := scanned
        cases rowsExit with
        | some rowsExit =>
          obtain ⟨rfl, rfl⟩ := Prod.mk.inj h
          refine ⟨hinv', fun h => ?_⟩
          rcases hleft with hleft | ⟨failure, hleft⟩ <;> rw [h] at hleft <;> cases hleft
        | none =>
          simp only at h
          split at h
          · rename_i hshort
            obtain ⟨rfl, rfl⟩ := Prod.mk.inj h
            exact ⟨hinv', fun _ => hleft.covered hshort.ne hinv'.covered⟩
          split at h
          · obtain ⟨rfl, rfl⟩ := Prod.mk.inj h
            exact ⟨hinv', fun h => nomatch h⟩
          · exact ih hinv' h

/-! ### Segments -/

variable (table) in
/-- The high-water mark of a segment. -/
def highWaterMark (arguments : Value) : Option ℤ :=
  match (argument arguments "through_poll_id").getD .null with
  | .null => some (table.maxId.getD 0)
  | value => value.asI64

theorem asI64_bounds {value : Value} {n : ℤ} (h : value.asI64 = some n) :
    -2 ^ 63 ≤ n ∧ n < 2 ^ 63 := by
  unfold Value.asI64 at h
  split at h
  · split_ifs at h with hbounds
    exact Option.some.inj h ▸ hbounds
  · cases h

theorem asI64_int {n : ℤ} (h : -2 ^ 63 ≤ n ∧ n < 2 ^ 63) :
    (Value.number (.int n)).asI64 = some n := if_pos h

theorem maxId_bounds (table : Table) :
    -2 ^ 63 ≤ table.maxId.getD 0 ∧ table.maxId.getD 0 < 2 ^ 63 := by
  cases hmax : table.maxId with
  | none => simp
  | some id =>
    obtain ⟨poll, hpoll, rfl⟩ := List.mem_map.mp (List.max?_mem hmax)
    exact table.ids_bigint poll hpoll

theorem throughPollIdOf_ok {env : SegmentEnv} {arguments : Value} {through : ℤ}
    (h : throughPollIdOf table env arguments = .ok through) :
    highWaterMark table arguments = some through ∧ through < 2 ^ 63 := by
  unfold throughPollIdOf at h
  unfold highWaterMark
  cases hvalue : (argument arguments "through_poll_id").getD .null with
  | null =>
    rw [hvalue] at h
    simp only at h
    split at h
    · obtain rfl := Except.ok.inj h
      exact ⟨rfl, (maxId_bounds table).2⟩
    all_goals cases h
  | _ =>
    rw [hvalue] at h
    exact ⟨okOr_eq_ok h, (asI64_bounds (okOr_eq_ok h)).2⟩

/-- What has been checked of a segment. -/
structure SegmentOf (table : Table) (arguments : Value) (segment : Segment τ) : Prop where
  cursor : afterPollIdOf arguments = .ok segment.afterPollId
  cursor_nonneg : 0 ≤ segment.afterPollId
  segment_nonneg : 0 ≤ segment.segment
  through : highWaterMark table arguments = some segment.throughPollId
  through_lt : segment.throughPollId < 2 ^ 63
  lt_through : segment.afterPollId < segment.throughPollId

theorem readSegment_ok {env : SegmentEnv} {arguments : Value} {attempt : ℤ}
    {result : Option (Segment τ)} (h : readSegment table clock env arguments attempt = .ok result) :
    match result with
    | none => ∃ after, afterPollIdOf arguments = .ok after ∧
        highWaterMark table arguments = some after
    | some segment => SegmentOf table arguments segment := by
  obtain ⟨start, -, h⟩ := bind_eq_ok h
  obtain ⟨after, hafter, h⟩ := bind_eq_ok h
  obtain ⟨_, hnonneg, h⟩ := bind_eq_ok h
  obtain ⟨segment, -, h⟩ := bind_eq_ok h
  obtain ⟨_, hsegment, h⟩ := bind_eq_ok h
  obtain ⟨mode, -, h⟩ := bind_eq_ok h
  obtain ⟨through, hthrough, h⟩ := bind_eq_ok h
  obtain ⟨_, hbounds, h⟩ := bind_eq_ok h
  obtain ⟨hmark, hlt⟩ := throughPollIdOf_ok hthrough
  have hnonneg := of_decide_eq_false (failIf_eq_ok hnonneg)
  have hsegment := of_decide_eq_false (failIf_eq_ok hsegment)
  have hbounds := failIf_eq_ok hbounds
  simp only [Bool.or_eq_false_iff, decide_eq_false_iff_not, not_lt] at hbounds
  split at h
  · rename_i heq
    obtain rfl := Except.ok.inj h
    exact ⟨after, hafter, heq ▸ hmark⟩
  · rename_i hne
    obtain ⟨_, -, h⟩ := bind_eq_ok h
    split at h
    · obtain rfl := Except.ok.inj h
      exact ⟨hafter, not_lt.mp hnonneg, not_lt.mp hsegment, hmark, hlt,
        lt_of_le_of_ne hbounds.1 (Ne.symm hne)⟩
    · cases h
    · cases h

/-- What the arguments of a continuation are read as. -/
structure Continues (table : Table) (clock : Clock τ) (cursor through : ℤ) (spec : JobSpec) :
    Prop where
  cursor : afterPollIdOf spec.arguments = .ok cursor
  through : highWaterMark table spec.arguments = some through
  key : ∃ key, spec.logicalKey = some key ∧
    pollExpirationReconciliationKeyFromArguments clock spec.arguments = .ok key

theorem job_continues (hclock : clock.Lawful) {start : τ} {through cursor segment : ℤ}
    {mode : PollExpirationScanMode} {now : ℤ} (hthrough : -2 ^ 63 ≤ through ∧ through < 2 ^ 63)
    (hcursor : -2 ^ 63 ≤ cursor ∧ cursor < 2 ^ 63)
    (hsegment : -2 ^ 63 ≤ segment ∧ segment < 2 ^ 63) (hfirst : segment ≠ 0) :
    Continues table clock cursor through
      (pollExpirationReconciliationJobWithMode clock start (some through) cursor segment mode now) := by
  have hcursor' : afterPollIdOf (pollExpirationReconciliationJobWithMode clock start (some through)
      cursor segment mode now).arguments = .ok cursor := by
    show okOr (Value.number (.int cursor)).asI64 _ = _
    rw [asI64_int hcursor]
    rfl
  have hthrough' : argument (pollExpirationReconciliationJobWithMode clock start (some through)
      cursor segment mode now).arguments "through_poll_id" = some (.number (.int through)) := by
    cases mode <;> rfl
  have hsegment' : segmentOf (pollExpirationReconciliationJobWithMode clock start (some through)
      cursor segment mode now).arguments = .ok segment := by
    have hvalue : argument (pollExpirationReconciliationJobWithMode clock start (some through)
        cursor segment mode now).arguments "segment" = some (.number (.int segment)) := by
      cases mode <;> rfl
    rw [segmentOf, hvalue]
    show okOr (Value.number (.int segment)).asI64 _ = _
    rw [asI64_int hsegment]
    rfl
  have hstart : scanStartedAtOf clock (pollExpirationReconciliationJobWithMode clock start
      (some through) cursor segment mode now).arguments = .ok start := by
    have hvalue : ((argument (pollExpirationReconciliationJobWithMode clock start (some through)
        cursor segment mode now).arguments "scan_started_at").or (argument
          (pollExpirationReconciliationJobWithMode clock start (some through) cursor segment mode
            now).arguments "cutoff")).bind Value.asStr = some (clock.toRfc3339 start) := by
      cases mode <;> rfl
    rw [scanStartedAtOf, hvalue, okOr_some_bind, hclock start]
    rfl
  have hmode : parsePollExpirationScanMode (pollExpirationReconciliationJobWithMode clock start
      (some through) cursor segment mode now).arguments segment = .ok mode := by
    cases mode with
    | optimized => rfl
    | raw =>
      have hraw : ¬ (segment = 0 ∨
          (some (Value.number (.int through)) |>.bind Value.asI64).isNone = true ∨
          (some (Value.number (.int cursor)) |>.bind Value.asI64).isNone = true) := by
        rw [Option.bind_some, Option.bind_some, asI64_int hthrough, asI64_int hcursor]
        simp [hfirst]
      exact if_neg hraw
  refine ⟨hcursor', ?_, _, rfl, ?_⟩
  · rw [highWaterMark, hthrough']
    exact asI64_int hthrough
  · rw [pollExpirationReconciliationKeyFromArguments, hstart, ok_bind, hcursor', ok_bind, hsegment',
      ok_bind, hmode, ok_bind]
    rfl

theorem continuation_continues (hclock : clock.Lawful) {start : τ} {through cursor segment now : ℤ}
    {mode : PollExpirationScanMode} {spec : JobSpec}
    (hthrough : -2 ^ 63 ≤ through ∧ through < 2 ^ 63)
    (hcursor : -2 ^ 63 ≤ cursor ∧ cursor < 2 ^ 63) (hsegment : 0 ≤ segment)
    (h : pollExpirationReconciliationContinuation clock start (some through) cursor segment mode
      now = .ok spec) : Continues table clock cursor through spec := by
  obtain ⟨next, hnext, h⟩ := bind_eq_ok h
  have hnext := okOr_eq_ok hnext
  unfold checkedAdd at hnext
  split_ifs at hnext with hbounds
  obtain rfl := Option.some.inj hnext
  cases mode with
  | optimized =>
    obtain rfl := Except.ok.inj h
    exact job_continues hclock hthrough hcursor hbounds (by omega)
  | raw =>
    obtain rfl := Except.ok.inj h
    exact job_continues hclock hthrough hcursor hbounds (by omega)

variable (jsonbEq table clock) in
/-- What a run of a segment makes of the calls before it: a continuation that takes over further
    on, under the same high-water mark and under the key that its arguments have; or, when it
    returns without one, nothing is left up to the high-water mark. -/
structure SegmentCorrect (before : List RepairCall) (arguments : Value) (run : SegmentRun) :
    Prop where
  continues : ∀ spec, run.continuation = some spec → ∃ after cursor through,
    afterPollIdOf arguments = .ok after ∧ highWaterMark table arguments = some through ∧
      after < cursor ∧ Continues table clock cursor through spec ∧
      Covered jsonbEq table (before ++ run.reconciled) cursor
  complete : run.result = .ok () → run.continuation = none → ∃ through,
    highWaterMark table arguments = some through ∧
      Covered jsonbEq table (before ++ run.reconciled) through

/-- A run that has failed without a continuation promises nothing. -/
theorem segmentCorrect_failed (arguments : Value) (reconciled : List RepairCall)
    (failure : HandlerFailure) :
    SegmentCorrect jsonbEq table clock before arguments ⟨reconciled, none, .error failure⟩ :=
  ⟨fun _ h => (nomatch h), fun h => (nomatch h)⟩

theorem finishSegment_correct (hclock : clock.Lawful) {enqueueExact : JobSpec → Bool}
    {env : SegmentEnv} {arguments : Value} {segment : Segment τ} {scan : Scan} {exit : ScanExit}
    (hsegment : SegmentOf table arguments segment)
    (hscan : ScanInv jsonbEq table before segment.afterPollId segment.throughPollId scan)
    (hexhausted : exit = .exhausted →
      Covered jsonbEq table (before ++ scan.reconciled) segment.throughPollId) :
    SegmentCorrect jsonbEq table clock before arguments
      (finishSegment clock enqueueExact env segment scan exit) := by
  have hrest : SegmentCorrect jsonbEq table clock before arguments
      (finishSegment clock enqueueExact env segment scan .bounded) := by
    rw [finishSegment]
    split_ifs with hlt hsame
    · exact segmentCorrect_failed _ _ _
    · split
      · exact segmentCorrect_failed _ _ _
      · rename_i spec hspec
        split_ifs
        · refine ⟨fun spec' h => ?_, fun _ h => (nomatch h)⟩
          obtain rfl := Option.some.inj h
          have hnonneg := hsegment.cursor_nonneg
          have hthrough := hsegment.through_lt
          have hlower := hscan.lower
          have hupper := hscan.upper
          have hcontinues := @continuation_continues table τ clock hclock _ _ _ _ _ _ _
            ⟨by omega, hthrough⟩ ⟨by omega, by omega⟩ hsegment.segment_nonneg hspec
          exact ⟨_, _, _, hsegment.cursor, hsegment.through, lt_of_le_of_ne hlower (Ne.symm hsame),
            hcontinues, hscan.covered⟩
        · exact segmentCorrect_failed _ _ _
    · exact ⟨fun _ h => (nomatch h), fun _ _ => ⟨_, hsegment.through,
        le_antisymm hscan.upper (not_lt.mp hlt) ▸ hscan.covered⟩⟩
  cases exit with
  | failed failure => exact segmentCorrect_failed _ _ _
  | exhausted =>
    exact ⟨fun _ h => (nomatch h), fun _ _ => ⟨_, hsegment.through, hexhausted rfl⟩⟩
  | bounded => exact hrest
  | finished => exact hrest

theorem inner_correct (hclock : clock.Lawful) (hrefl : ∀ value, jsonbEq value value = true)
    {enqueueExact : JobSpec → Bool} {env : SegmentEnv} {arguments : Value} {attempt : ℤ}
    (hcursor : ∀ after, afterPollIdOf arguments = .ok after → Covered jsonbEq table before after) :
    SegmentCorrect jsonbEq table clock before arguments
      (reconcilePollExpirationsInner jsonbEq table clock enqueueExact env arguments attempt) := by
  rw [reconcilePollExpirationsInner]
  cases hread : readSegment table clock env arguments attempt with
  | error failure => exact segmentCorrect_failed _ _ _
  | ok found =>
    have hfound := readSegment_ok hread
    cases found with
    | none =>
      obtain ⟨after, hafter, hmark⟩ := hfound
      refine ⟨fun _ h => (nomatch h), fun _ _ => ⟨after, hmark, ?_⟩⟩
      rw [List.append_nil]
      exact hcursor after hafter
    | some segment =>
      have hsegment : SegmentOf table arguments segment := hfound
      have hstart : ScanInv jsonbEq table before segment.afterPollId segment.throughPollId
          ⟨segment.afterPollId, 0, []⟩ :=
        ⟨le_rfl, hsegment.lt_through.le, by
          rw [List.append_nil]
          exact hcursor _ hsegment.cursor⟩
      simp only
      obtain ⟨hscan, hexhausted⟩ := scanPages_spec hrefl hstart (Prod.mk.eta.symm : scanPages jsonbEq
        table env.pages segment.activation segment.mode segment.throughPollId repairMaxPages 0
        ⟨segment.afterPollId, 0, []⟩ = (_, _))
      exact finishSegment_correct hclock hsegment hscan hexhausted

theorem withinWallTime_correct {arguments : Value} {run : SegmentRun}
    (h : SegmentCorrect jsonbEq table clock before arguments run) (wall : Option (Option ℕ)) :
    SegmentCorrect jsonbEq table clock before arguments (withinWallTime wall run) := by
  cases wall with
  | none => exact h
  | some answered =>
    cases answered with
    | none => exact ⟨h.continues, fun h => (nomatch h)⟩
    | some answered => exact segmentCorrect_failed _ _ _

theorem runSegment_correct (hclock : clock.Lawful) (hrefl : ∀ value, jsonbEq value value = true)
    {jobs : List Job} {env : SegmentEnv} {job : ClaimedJob}
    (hcursor : ∀ after, afterPollIdOf job.arguments = .ok after →
      Covered jsonbEq table before after) :
    SegmentCorrect jsonbEq table clock before job.arguments
      (runSegment jsonbEq table clock jobs env job) := by
  rw [runSegment]
  split
  · exact segmentCorrect_failed _ _ _
  · rw [reconcilePollExpirations]
    split
    · exact segmentCorrect_failed _ _ _
    · split_ifs
      · exact segmentCorrect_failed _ _ _
      · exact withinWallTime_correct (inner_correct hclock hrefl hcursor) env.wall

/-! ### Runs -/

variable (jsonbEq table) in
/-- Everything up to the cursor of some arguments has been reconciled. -/
def CursorCovered (reconciled : List RepairCall) (arguments : Value) : Prop :=
  ∀ after, afterPollIdOf arguments = .ok after → Covered jsonbEq table reconciled after

variable (jsonbEq table) in
/-- The invariant of the scan: this is so for the jobs and for what handlers have claimed. -/
structure ScanInvariant (s : State) : Prop where
  jobs : ∀ job ∈ s.jobs, CursorCovered jsonbEq table s.reconciled job.arguments
  running : ∀ job ∈ s.running, CursorCovered jsonbEq table s.reconciled job.arguments

theorem CursorCovered.mono {reconciled reconciled' : List RepairCall} {arguments : Value}
    (h : CursorCovered jsonbEq table reconciled arguments) (hsub : reconciled ⊆ reconciled') :
    CursorCovered jsonbEq table reconciled' arguments :=
  fun after hafter => (h after hafter).mono hsub

variable {s s' : State}

theorem insert_jobs (s : State) (spec : JobSpec) :
    ∀ job ∈ (s.insert spec).jobs, job ∈ s.jobs ∨ job.arguments = spec.arguments := by
  intro job hjob
  rw [State.insert] at hjob
  split_ifs at hjob
  · exact .inl hjob
  · rcases List.mem_append.mp hjob with hjob | hjob
    · exact .inl hjob
    · exact .inr (List.mem_singleton.mp hjob ▸ rfl)

theorem insert_running (s : State) (spec : JobSpec) : (s.insert spec).running = s.running := by
  rw [State.insert]
  split_ifs <;> rfl

theorem insert_reconciled (s : State) (spec : JobSpec) :
    (s.insert spec).reconciled = s.reconciled := by
  rw [State.insert]
  split_ifs <;> rfl

/-- A statement leaves the arguments of the rows that it leaves. -/
def Statement.KeepsArguments (statement : Statement) : Prop :=
  ∀ job job', statement.effect job = some job' → job'.arguments = job.arguments

theorem fenced_keeps {jobs : List Job} {now : ℤ} {token : Queue.Token}
    {effect : Job → Option Job} {response : Option Job → Queue.Response}
    (h : ∀ job job', effect job = some job' → job'.arguments = job.arguments) :
    Statement.KeepsArguments (Queue.fenced jobs now token effect response) := by
  intro job job' heffect
  simp only [Queue.fenced] at heffect
  split_ifs at heffect
  · exact h job job' heffect
  · exact congrArg Job.arguments (Option.some.inj heffect).symm

theorem complete_keeps (jobs : List Job) (now : ℤ) (id : ℕ) (owner : String) (generation : ℕ) :
    Statement.KeepsArguments (complete jobs now id owner generation) :=
  fenced_keeps fun _ _ h => (nomatch h)

theorem deadLetter_keeps (jobs : List Job) (now : ℤ) (job : ClaimedJob) (error : String) :
    Statement.KeepsArguments (deadLetter jobs now job error) :=
  fenced_keeps fun _ _ h => Option.some.inj h ▸ rfl

theorem retry_keeps (jobs : List Job) (now : ℤ) (job : ClaimedJob) (runAt : ℤ) (error : String) :
    Statement.KeepsArguments (retry jobs now job runAt error) := by
  unfold retry
  split
  · exact fenced_keeps fun _ _ h => Option.some.inj h ▸ rfl
  · exact fenced_keeps fun _ _ h => Option.some.inj h ▸ rfl

theorem ScanInvariant.apply (h : ScanInvariant jsonbEq table s) {statement : Statement}
    (hkeeps : Statement.KeepsArguments statement) :
    ScanInvariant jsonbEq table (s.apply statement) := by
  refine ⟨fun job hjob => ?_, h.running⟩
  obtain ⟨row, hrow, heffect⟩ := List.mem_filterMap.mp hjob
  rw [hkeeps row job heffect]
  exact h.jobs row hrow

theorem ScanInvariant.insert (h : ScanInvariant jsonbEq table s) {spec : JobSpec}
    (hspec : CursorCovered jsonbEq table s.reconciled spec.arguments) :
    ScanInvariant jsonbEq table (s.insert spec) := by
  refine ⟨fun job hjob => ?_, fun job hjob => ?_⟩
  · rw [insert_reconciled]
    rcases insert_jobs s spec job hjob with hjob | hjob
    · exact h.jobs job hjob
    · exact hjob ▸ hspec
  · rw [insert_reconciled]
    exact h.running job (insert_running s spec ▸ hjob)

theorem ScanInvariant.step (hclock : clock.Lawful) (hrefl : ∀ value, jsonbEq value value = true)
    {op : Op} (h : ScanInvariant jsonbEq table s)
    (hstep : Step jsonbEq table clock s op s') : ScanInvariant jsonbEq table s' := by
  unfold Step at hstep
  cases op with
  | advance now =>
    simp only [State.step] at hstep
    split_ifs at hstep
    obtain rfl := Option.some.inj hstep
    exact ⟨h.jobs, h.running⟩
  | schedule spec =>
    simp only [State.step] at hstep
    split_ifs at hstep with hspec
    obtain rfl := Option.some.inj hstep
    refine h.insert fun after hafter => ?_
    obtain rfl := Except.ok.inj (hafter.symm.trans hspec.2.1)
    exact covered_zero _
  | claim id leaseOwner leaseMilliseconds =>
    simp only [State.step] at hstep
    split at hstep
    · cases hstep
    rename_i found hfound
    obtain rfl := Option.some.inj hstep
    have hclaimed := h.jobs found (List.mem_of_find?_eq_some hfound)
    refine ⟨fun job hjob => ?_, fun job hjob => ?_⟩
    · obtain ⟨row, hrow, rfl⟩ := List.mem_map.mp hjob
      split_ifs
      · exact hclaimed
      · exact h.jobs row hrow
    · rcases List.mem_append.mp hjob with hjob | hjob
      · exact h.running job hjob
      · obtain rfl := List.mem_singleton.mp hjob
        exact hclaimed
  | execute i env =>
    simp only [State.step] at hstep
    split at hstep
    · cases hstep
    rename_i job hjob
    obtain rfl := Option.some.inj hstep
    have hcorrect := @runSegment_correct jsonbEq table τ clock s.reconciled hclock hrefl s.jobs env
      job (h.running job (List.mem_of_getElem? hjob))
    have hmono : ∀ {arguments}, CursorCovered jsonbEq table s.reconciled arguments →
        CursorCovered jsonbEq table
          (s.reconciled ++ (runSegment jsonbEq table clock s.jobs env job).reconciled) arguments :=
      fun hcovered => hcovered.mono (List.subset_append_left _ _)
    cases hcontinuation : (runSegment jsonbEq table clock s.jobs env job).continuation with
    | none =>
      exact ⟨fun row hrow => hmono (h.jobs row hrow),
        fun row hrow => hmono (h.running row (List.mem_of_mem_eraseIdx hrow))⟩
    | some spec =>
      obtain ⟨_, cursor, _, -, -, -, hcontinues, hcovered⟩ := hcorrect.continues spec hcontinuation
      refine ⟨fun row hrow => ?_, fun row hrow => ?_⟩
      · simp only [insert_reconciled]
        rcases insert_jobs s spec row hrow with hrow | hrow
        · exact hmono (h.jobs row hrow)
        · rw [hrow]
          intro after hafter
          obtain rfl := Except.ok.inj (hafter.symm.trans hcontinues.cursor)
          exact hcovered
      · simp only [insert_reconciled]
        have hrow : row ∈ (s.insert spec).running := List.mem_of_mem_eraseIdx hrow
        exact hmono (h.running row (insert_running s spec ▸ hrow))
  | acknowledge i runAt =>
    simp only [State.step] at hstep
    split at hstep
    · cases hstep
    have herase : ScanInvariant jsonbEq table { s with returned := s.returned.eraseIdx i } :=
      ⟨h.jobs, h.running⟩
    split at hstep
    · obtain rfl := Option.some.inj hstep
      exact herase.apply (complete_keeps _ _ _ _ _)
    · obtain rfl := Option.some.inj hstep
      exact herase.apply (retry_keeps _ _ _ _ _)
    · obtain rfl := Option.some.inj hstep
      exact herase.apply (deadLetter_keeps _ _ _ _)

/-- CORRECT (the reconciliation scan is complete): in every run of the jobs of the scan, whatever
    times out or fails in their segments, a segment that returns without a continuation leaves no
    candidate behind up to its high-water mark that is not terminal and has not been reconciled, and
    a continuation is further on, under the same high-water mark and the key of its arguments. -/
theorem reconciliation_complete (hclock : clock.Lawful)
    (hrefl : ∀ value, jsonbEq value value = true) {now : ℤ} {ops : List Op}
    (h : Run (Step jsonbEq table clock) (initial now) ops s) :
    ∀ job ∈ s.running, ∀ env, SegmentCorrect jsonbEq table clock s.reconciled job.arguments
      (runSegment jsonbEq table clock s.jobs env job) := by
  have hinit : ScanInvariant jsonbEq table (initial now) :=
    ⟨fun _ h => (nomatch h), fun _ h => (nomatch h)⟩
  have hinv : ScanInvariant jsonbEq table s :=
    h.preserves (fun _ _ _ hinv hstep => hinv.step hclock hrefl hstep) hinit
  exact fun job hjob env => runSegment_correct hclock hrefl (hinv.running job hjob)

/-! ### A run -/

/-- Seconds of one minute. -/
def minuteClock : Clock (Fin 10) where
  toRfc3339 second := "2024-01-01T00:00:0" ++ second.val.repr ++ "+00:00"
  parse text :=
    (List.finRange 10).find? fun second =>
      decide (text = "2024-01-01T00:00:0" ++ second.val.repr ++ "+00:00")
  timestampMicros second := 1704067200000000 + second.val * 1000000

theorem minuteClock_lawful : minuteClock.Lawful := by
  unfold Clock.Lawful
  decide

def pollOf (id : ℤ) : Poll := ⟨id, some 1704067200000000, false, none, false⟩

/-- Three polls, of which the second one has its effects. -/
def threePolls : Table where
  polls := [pollOf 7, pollOf 3, pollOf 5]
  markers :=
    [⟨1, pollExpirationEffectKind, some (pollExpirationEffectKey 5 1704067200000000),
      pollExpirationEffectPayload 5 1704067200000000 .effectsEnqueued, some 1704067300000000⟩]
  ids_nodup := by decide
  ids_bigint := by decide

/-- A segment whose second call times out. -/
def timedOutEnv : SegmentEnv where
  highWater := .value
  expired := false
  activation := .found 0
  pages _ :=
    { expired := false
      primary := .rows
      fallback := .rows
      rowExpired := fun _ => false
      repair := fun i => if i = 0 then .succeeded else .timedOut }
  enqueuedAt := some 20
  wall := none

def scanOps : List Op :=
  [.schedule (pollExpirationReconciliationJobWithMode minuteClock 0 none 0 0 .optimized 10),
    .advance 15, .claim 1 "worker" 30000, .execute 0 timedOutEnv, .acknowledge 0 30,
    .claim 2 "worker" 30000]

theorem reconciliation_complete_continuation : ∃ s : State,
    s.running.map ClaimedJob.logicalKey =
        [some "poll-expiration-reconcile:1704067200000000:1:3"] ∧
      s.reconciled.map RepairCall.pollId = [3] ∧
      ∀ job ∈ s.running, ∀ env, SegmentCorrect (fun v v' => decide (v = v')) threePolls minuteClock
        s.reconciled job.arguments
          (runSegment (fun v v' => decide (v = v')) threePolls minuteClock s.jobs env job) := by
  have hrun : (scanOps.foldlM (State.step (fun v v' => decide (v = v')) threePolls minuteClock)
      (initial 0)).map (fun s =>
        (s.running.map ClaimedJob.logicalKey, s.reconciled.map RepairCall.pollId)) =
      some ([some "poll-expiration-reconcile:1704067200000000:1:3"], [3]) := by
    decide
  obtain ⟨s, hrun, hs⟩ := Option.map_eq_some_iff.mp hrun
  obtain ⟨hrunning, hreconciled⟩ := Prod.mk.inj hs
  exact ⟨s, hrunning, hreconciled, reconciliation_complete minuteClock_lawful
    (fun value => decide_eq_true rfl) (foldlM_run hrun)⟩

end Rustodon.PollExpiration
