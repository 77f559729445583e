import Rustodon.Schemes.Trails
import Rustodon.Timelines.Database

/-! @src mastodon/repository.rs | name:Context of statuses | scheme:recursion | family:timelines

    The statuses that a status replies to, and those that reply to it: two recursive queries that keep
    the path to each row. The path of the second begins with the status itself; that of the first does
    not, so a status that is on a cycle of replies is found among its own ancestors. -/

namespace Rustodon.Timelines
open Schemes.Climb Schemes.Recursion

section Queries

variable (db : Database)

/-- A row of the `search_tree` of ancestors. -/
structure AncestorRow where
  id : ℤ
  inReplyToId : Option ℤ
  path : List ℤ
  deriving DecidableEq

def ancestorRow (path : List ℤ) (status : Status) : AncestorRow :=
  ⟨status.id, status.inReplyToId, path ++ [status.id]⟩

def ancestorBase (statusId : ℤ) : List AncestorRow :=
  (db.statuses.filter fun status => (db.status statusId).bind Status.inReplyToId == some status.id).map
    (ancestorRow [])

def ancestorStep (row : AncestorRow) : List AncestorRow :=
  (db.statuses.filter fun status =>
    row.inReplyToId == some status.id && !row.path.contains status.id).map (ancestorRow row.path)

/-- The replies to a status. The order in which they are found is lost when rows are sorted. -/
def repliesTo (statusId : ℤ) : List ℤ :=
  ((db.statuses.filter fun status => status.inReplyToId == some statusId).map Status.id).insertionSort
    fun a b => a ≤ b

/-- The rows of the `search_tree` of descendants are ids and paths. -/
def descendantBase (statusId : ℤ) : List (ℤ × List ℤ) :=
  (db.statuses.filter fun status => decide (status.id = statusId)).map fun status => (status.id, [status.id])

def descendantStep (depthLimit : Option ℕ) (row : ℤ × List ℤ) : List (ℤ × List ℤ) :=
  if depthLimit.all fun depth => decide (row.2.length < depth + 1) then
    ((repliesTo db row.1).filter fun id => !row.2.contains id).map fun id => (id, row.2 ++ [id])
  else []

/-- `rest_context_ids`, with so many rounds of the recursion. -/
def contextIdsAfter (rounds : ℕ) (statusId : ℤ) (ancestorsLimit descendantsLimit : ℕ)
    (depthLimit : Option ℕ) : List ℤ × List ℤ :=
  let ancestors := (collected (ancestorStep db) rounds (ancestorBase db statusId)).insertionSort
    fun a b => a.path ≤ b.path
  let descendants := (collected (descendantStep db depthLimit) rounds (descendantBase db statusId)).insertionSort
    fun a b => a.2 ≤ b.2
  (((ancestors.take ancestorsLimit).map AncestorRow.id).reverse,
    ((descendants.filter fun row => decide (row.1 ≠ statusId)).take descendantsLimit).map Prod.fst)

/-- `rest_context_ids`: there are never more rounds than statuses. -/
def restContextIds : ℤ → ℕ → ℕ → Option ℕ → List ℤ × List ℤ := contextIdsAfter db db.statuses.length

/-- The status that a status replies to. -/
def statusParent (statusId : ℤ) : Option ℤ :=
  ((db.status statusId).bind fun status => status.inReplyToId.bind db.status).map Status.id

/-- The context of a status is right. -/
structure ContextCorrect (statusId : ℤ) (ancestorsLimit descendantsLimit : ℕ) (depthLimit : Option ℕ) :
    Prop where
  /-- The recursion ends: more rounds find nothing more. -/
  terminates : ∀ rounds, db.statuses.length ≤ rounds →
    contextIdsAfter db rounds statusId ancestorsLimit descendantsLimit depthLimit =
      restContextIds db statusId ancestorsLimit descendantsLimit depthLimit
  notAncestor : statusId ∉ (restContextIds db statusId ancestorsLimit descendantsLimit depthLimit).1
  notDescendant : statusId ∉ (restContextIds db statusId ancestorsLimit descendantsLimit depthLimit).2
  ancestors_nodup : (restContextIds db statusId ancestorsLimit descendantsLimit depthLimit).1.Nodup
  descendants_nodup : (restContextIds db statusId ancestorsLimit descendantsLimit depthLimit).2.Nodup
  disjoint : (restContextIds db statusId ancestorsLimit descendantsLimit depthLimit).1.Disjoint
    (restContextIds db statusId ancestorsLimit descendantsLimit depthLimit).2
  /-- The nearest ones on the way up, each once, the farthest of them first. -/
  nearest : ∃ chain : List ℤ, chain.Nodup ∧
    (∀ i a, chain[i]? = some a → climb (statusParent db) (i + 1) statusId = some a) ∧
    (∀ a, a ∈ chain ↔ ∃ n, climb (statusParent db) (n + 1) statusId = some a) ∧
    (restContextIds db statusId ancestorsLimit descendantsLimit depthLimit).1 =
      (chain.take ancestorsLimit).reverse
  /-- The first ones in preorder of those that are not too deep. -/
  first : ∃ n, (∀ a, a ∈ preorder (repliesTo db) n statusId ↔
      ∃ k, depthLimit.all (fun depth => decide (k + 1 ≤ depth)) = true ∧
        climb (statusParent db) (k + 1) a = some statusId) ∧
    (restContextIds db statusId ancestorsLimit descendantsLimit depthLimit).2 =
      (preorder (repliesTo db) n statusId).take descendantsLimit

end Queries

variable {db : Database} {statusId a b : ℤ} {status : Status} {rounds n : ℕ} {path : List ℤ}

/-! ### Parents and replies -/

theorem repliesTo_sorted (statusId : ℤ) : (repliesTo db statusId).Pairwise (· < ·) := by
  have hnodup : (repliesTo db statusId).Nodup := by
    rw [repliesTo, (List.perm_insertionSort _ _).nodup_iff]
    exact db.status_ids.sublist (List.filter_sublist.map _)
  exact (List.pairwise_insertionSort (fun a b : ℤ => a ≤ b) _).and hnodup |>.imp
    fun h => lt_of_le_of_ne h.1 h.2

theorem statusParent_eq_some (hstatus : db.status a = some status) : statusParent db a = some b ↔
    status.inReplyToId = some b ∧ ∃ parent, db.status b = some parent := by
  rw [statusParent, hstatus, Option.bind_some]
  constructor
  · intro h
    obtain ⟨parent, hparent, rfl⟩ := Option.map_eq_some_iff.mp h
    obtain ⟨id, hid, hfound⟩ := Option.bind_eq_some_iff.mp hparent
    obtain ⟨-, rfl⟩ := Database.mem_of_status hfound
    exact ⟨hid, parent, hfound⟩
  · rintro ⟨hid, parent, hfound⟩
    rw [hid, Option.bind_some, hfound, Option.map_some, (Database.mem_of_status hfound).2]

theorem mem_repliesTo (hstatus : db.status a = some status) :
    b ∈ repliesTo db a ↔ statusParent db b = some a := by
  rw [repliesTo, List.mem_insertionSort, List.mem_map]
  constructor
  · rintro ⟨reply, hreply, rfl⟩
    obtain ⟨hmem, hparent⟩ := List.mem_filter.mp hreply
    exact (statusParent_eq_some (Database.status_of_mem hmem)).mpr ⟨by simpa using hparent, status, hstatus⟩
  · intro h
    cases hreply : db.status b with
    | none => simp [statusParent, hreply] at h
    | some reply =>
      obtain ⟨hmem, rfl⟩ := Database.mem_of_status hreply
      obtain ⟨hparent, -⟩ := (statusParent_eq_some hreply).mp h
      exact ⟨reply, List.mem_filter.mpr ⟨hmem, by simpa using hparent⟩, rfl⟩

/-- What is replied to is there: `in_reply_to_id` is a foreign key. -/
def RepliesKnown (db : Database) : Prop :=
  ∀ status ∈ db.statuses, ∀ id, status.inReplyToId = some id → ∃ parent, db.status id = some parent

theorem mem_repliesTo_iff (hknown : RepliesKnown db) (a b : ℤ) :
    b ∈ repliesTo db a ↔ statusParent db b = some a := by
  cases hstatus : db.status a with
  | some status => exact mem_repliesTo hstatus
  | none =>
    constructor
    · intro h
      rw [repliesTo, List.mem_insertionSort, List.mem_map] at h
      obtain ⟨reply, hreply, rfl⟩ := h
      obtain ⟨hmem, hparent⟩ := List.mem_filter.mp hreply
      obtain ⟨parent, hfound⟩ := hknown reply hmem a (by simpa using hparent)
      rw [hstatus] at hfound
      cases hfound
    · intro h
      cases hreply : db.status b with
      | none => simp [statusParent, hreply] at h
      | some reply =>
        obtain ⟨-, parent, hfound⟩ := (statusParent_eq_some hreply).mp h
        rw [hstatus] at hfound
        cases hfound

theorem statusParent_mem (h : statusParent db a = some b) : b ∈ db.statuses.map Status.id := by
  cases hstatus : db.status a with
  | none => simp [statusParent, hstatus] at h
  | some status =>
    obtain ⟨-, parent, hfound⟩ := (statusParent_eq_some hstatus).mp h
    obtain ⟨hmem, rfl⟩ := Database.mem_of_status hfound
    exact List.mem_map_of_mem hmem

theorem repliesTo_subset (a : ℤ) : repliesTo db a ⊆ db.statuses.map Status.id := by
  intro b hb
  rw [repliesTo, List.mem_insertionSort] at hb
  exact (List.filter_sublist.map Status.id).subset hb

theorem filter_id_eq (hstatus : status ∈ db.statuses) :
    db.statuses.filter (fun other => decide (other.id = status.id)) = [status] := by
  have hnodup := db.status_ids
  generalize db.statuses = statuses at hstatus hnodup
  induction statuses with
  | nil => cases hstatus
  | cons first statuses ih =>
    rw [List.map_cons, List.nodup_cons] at hnodup
    rcases List.mem_cons.mp hstatus with rfl | hmem
    · rw [List.filter_cons_of_pos (by simp), List.filter_eq_nil_iff.mpr]
      intro other hother
      simpa using fun heq => hnodup.1 (List.mem_map.mpr ⟨other, hother, heq⟩)
    · rw [List.filter_cons_of_neg, ih hmem hnodup.2]
      simpa using fun heq => hnodup.1 (List.mem_map.mpr ⟨status, hmem, heq.symm⟩)

/-! ### Ancestors -/

theorem ancestorBase_eq (statusId : ℤ) : ancestorBase db statusId =
    ancestorStep db ⟨statusId, (db.status statusId).bind Status.inReplyToId, []⟩ := by
  simp [ancestorBase, ancestorStep]

/-- A round goes on to the parent, if that is new. -/
theorem ancestorStep_eq {row : AncestorRow} (hrow : row.inReplyToId = (db.status row.id).bind Status.inReplyToId) :
    ancestorStep db row =
      match statusParent db row.id with
      | none => []
      | some b =>
        if b ∈ row.path then [] else [⟨b, (db.status b).bind Status.inReplyToId, row.path ++ [b]⟩] := by
  rw [ancestorStep, hrow]
  cases hstatus : db.status row.id with
  | none => simp [statusParent, hstatus]
  | some status =>
    rw [Option.bind_some]
    cases hparent : statusParent db row.id with
    | none =>
      have hnone : ∀ parent ∈ db.statuses, status.inReplyToId ≠ some parent.id := by
        intro parent hmem heq
        have hsome := (statusParent_eq_some hstatus).mpr ⟨heq, parent, Database.status_of_mem hmem⟩
        rw [hparent] at hsome
        cases hsome
      rw [List.filter_eq_nil_iff.mpr fun parent hmem => by simp [hnone parent hmem], List.map_nil]
    | some b =>
      obtain ⟨hreply, parent, hfound⟩ := (statusParent_eq_some hstatus).mp hparent
      obtain ⟨hmem, rfl⟩ := Database.mem_of_status hfound
      have hone : (db.statuses.filter fun other => status.inReplyToId == some other.id) = [parent] := by
        rw [← filter_id_eq hmem]
        exact List.filter_congr fun other _ => by rw [hreply]; simp [Bool.beq_eq_decide_eq, eq_comm]
      have hboth : (db.statuses.filter fun other =>
          status.inReplyToId == some other.id && !row.path.contains other.id) =
            [parent].filter fun other => !row.path.contains other.id := by
        rw [← hone, List.filter_filter]
        exact List.filter_congr fun other _ => Bool.and_comm _ _
      rw [hboth]
      by_cases hpath : parent.id ∈ row.path
      · simp [hpath]
      · simp [hpath, hfound, ancestorRow]

/-- The rounds follow the trail, and each path goes on from the one before. -/
theorem search_ancestors {row : AncestorRow} (hrow : row.inReplyToId = (db.status row.id).bind Status.inReplyToId) :
    (search (ancestorStep db) n (ancestorStep db row)).map AncestorRow.id =
        trail (statusParent db) n row.path row.id ∧
      (∀ next ∈ search (ancestorStep db) n (ancestorStep db row),
        ∃ b rest, next.path = row.path ++ b :: rest) ∧
      (search (ancestorStep db) n (ancestorStep db row)).Pairwise fun row row' => row.path < row'.path := by
  induction n generalizing row with
  | zero => exact ⟨rfl, fun _ h => by simp [search] at h, List.Pairwise.nil⟩
  | succ n ih =>
    rw [ancestorStep_eq hrow, trail]
    cases hparent : statusParent db row.id with
    | none => exact ⟨rfl, fun _ h => by simp [search] at h, List.Pairwise.nil⟩
    | some b =>
      by_cases hb : b ∈ row.path
      · simp [hb, search]
      · obtain ⟨hids, hpaths, hpairs⟩ :=
          @ih ⟨b, (db.status b).bind Status.inReplyToId, row.path ++ [b]⟩ rfl
        simp only [if_neg hb, search, List.flatMap_cons, List.flatMap_nil, List.append_nil, List.map_cons,
          hids, List.pairwise_cons, List.forall_mem_cons, true_and]
        refine ⟨⟨⟨b, [], rfl⟩, fun next hnext => ?_⟩, fun next hnext => ?_, hpairs⟩
        · obtain ⟨c, rest, hrest⟩ := hpaths next hnext
          exact ⟨b, c :: rest, by simpa using hrest⟩
        · obtain ⟨c, rest, hrest⟩ := hpaths next hnext
          rw [hrest]
          simpa using append_lt_append (row.path ++ [b]) (List.nil_lt_cons c rest)

/-- The ancestors are the trail. -/
theorem ancestors_eq : ((collected (ancestorStep db) rounds (ancestorBase db statusId)).insertionSort
    fun a b => a.path ≤ b.path).map AncestorRow.id = trail (statusParent db) rounds [] statusId := by
  obtain ⟨hids, -, hpairs⟩ := @search_ancestors db rounds
    ⟨statusId, (db.status statusId).bind Status.inReplyToId, []⟩ rfl
  rw [← ancestorBase_eq] at hids hpairs
  rw [insertionSort_collected hpairs, hids]

/-- There are no more rounds than statuses. -/
theorem ancestors_stop :
    working (ancestorStep db) (db.statuses.map Status.id).length (ancestorBase db statusId) = [] := by
  refine stops_of_bound (P := fun n row =>
    row.path.length = n + 1 ∧ row.path.Nodup ∧ row.path ⊆ db.statuses.map Status.id) ?_ ?_ ?_
  · rintro n row next ⟨hlength, hnodup, hsub⟩ hnext
    obtain ⟨status, hstatus, rfl⟩ := List.mem_map.mp hnext
    obtain ⟨hmem, hkey⟩ := List.mem_filter.mp hstatus
    have hnew : status.id ∉ row.path := by
      simp only [Bool.and_eq_true, Bool.not_eq_true', List.contains_eq_mem, decide_eq_false_iff_not] at hkey
      exact hkey.2
    refine ⟨by simpa [ancestorRow] using hlength,
      hnodup.append (List.nodup_singleton _) (by simpa using hnew), ?_⟩
    exact List.append_subset.mpr ⟨hsub, by simpa using ⟨status, hmem, rfl⟩⟩
  · intro row hrow
    obtain ⟨status, hstatus, rfl⟩ := List.mem_map.mp hrow
    have hmem := List.mem_of_mem_filter hstatus
    exact ⟨rfl, List.nodup_singleton _, by simpa [ancestorRow] using ⟨status, hmem, rfl⟩⟩
  · rintro row ⟨hlength, hnodup, hsub⟩
    have := (List.subperm_of_subset hnodup hsub).length_le
    omega

/-! ### Descendants -/

variable {depthLimit : Option ℕ} {ancestorsLimit descendantsLimit : ℕ}

theorem descendantStep_eq : descendantStep db depthLimit = pathStep (repliesTo db) depthLimit := rfl

theorem descendantBase_eq (hstatus : status ∈ db.statuses) :
    descendantBase db status.id = [(status.id, [status.id])] := by
  rw [descendantBase, filter_id_eq hstatus, List.map_singleton]

/-- Below a status that is on no cycle the rows are the preorder. -/
theorem descendants_eq (hknown : RepliesKnown db) (hstatus : status ∈ db.statuses)
    (hcycle : ¬OnCycle (statusParent db) status.id) :
    ((collected (descendantStep db depthLimit) (n + 1) (descendantBase db status.id)).insertionSort
        fun a b => a.2 ≤ b.2).map Prod.fst =
      status.id :: preorder (repliesTo db) (roomFor depthLimit n [status.id]) status.id := by
  have hpairs : (search (pathStep (repliesTo db) depthLimit) (n + 1) [(status.id, [status.id])]).Pairwise
      fun row row' => row.2 < row'.2 :=
    (@search_paths ℤ (repliesTo db) [] (n + 1) _ depthLimit repliesTo_sorted [status.id]
      (List.pairwise_singleton _ _)).2
  rw [descendantBase_eq hstatus, descendantStep_eq, insertionSort_collected hpairs, search,
    List.flatMap_singleton, List.map_cons]
  exact congrArg (status.id :: ·) (search_preorder (mem_repliesTo_iff hknown) hcycle
    (fun q hq => ⟨0, by rw [List.mem_singleton.mp hq]; rfl⟩) (climb_zero status.id))

theorem descendants_stop (hstatus : status ∈ db.statuses) :
    working (descendantStep db depthLimit) (db.statuses.map Status.id).length (descendantBase db status.id) =
      [] := by
  rw [descendantBase_eq hstatus]
  exact path_stops repliesTo_subset (List.mem_map_of_mem hstatus)

/-! ### The context of a status -/

theorem contextIdsAfter_eq (hstatus : status ∈ db.statuses) (h : db.statuses.length ≤ rounds) :
    contextIdsAfter db rounds status.id ancestorsLimit descendantsLimit depthLimit =
      restContextIds db status.id ancestorsLimit descendantsLimit depthLimit := by
  have hancestors := @ancestors_stop db status.id
  have hdescendants := @descendants_stop db status depthLimit hstatus
  rw [List.length_map] at hancestors hdescendants
  rw [restContextIds, contextIdsAfter, contextIdsAfter, collected_of_stops hancestors h,
    collected_of_stops hdescendants h]

theorem restContextIds_ancestors : (restContextIds db statusId ancestorsLimit descendantsLimit depthLimit).1 =
    ((trail (statusParent db) db.statuses.length [] statusId).take ancestorsLimit).reverse := by
  rw [← ancestors_eq, ← List.map_take]
  rfl

theorem mem_ancestors {a : ℤ} : a ∈ trail (statusParent db) db.statuses.length [] statusId ↔
    ∃ n, climb (statusParent db) (n + 1) statusId = some a := by
  rw [← List.length_map (f := Status.id)]
  exact mem_trail fun _ _ => statusParent_mem

theorem restContextIds_descendants (hknown : RepliesKnown db) (hstatus : status ∈ db.statuses)
    (hcycle : ¬OnCycle (statusParent db) status.id) (hn : db.statuses.length = n + 1) :
    (restContextIds db status.id ancestorsLimit descendantsLimit depthLimit).2 =
      (preorder (repliesTo db) (roomFor depthLimit n [status.id]) status.id).take descendantsLimit := by
  have hrows := @descendants_eq db status n depthLimit hknown hstatus hcycle
  have hself : (preorder (repliesTo db) (roomFor depthLimit n [status.id]) status.id).filter
      (fun id => decide (id ≠ status.id)) =
        preorder (repliesTo db) (roomFor depthLimit n [status.id]) status.id := by
    refine List.filter_eq_self.mpr fun id hid => decide_eq_true fun heq => ?_
    obtain ⟨k, -, hk⟩ := (mem_preorder (mem_repliesTo_iff hknown)).mp (heq ▸ hid)
    exact hcycle ⟨k, hk⟩
  rw [restContextIds, contextIdsAfter, hn]
  have hfilter := congrArg (List.filter fun id => decide (id ≠ status.id)) hrows
  rw [List.filter_map, List.filter_cons_of_neg (by simp), hself] at hfilter
  exact List.map_take.trans (congrArg (List.take descendantsLimit) hfilter)

/-- What is above and below at once is on a cycle. -/
theorem ancestors_disjoint (hcycle : ¬OnCycle (statusParent db) statusId) {k : ℕ}
    (habove : climb (statusParent db) (n + 1) statusId = some a)
    (hbelow : climb (statusParent db) (k + 1) a = some statusId) : False := by
  refine hcycle ⟨n + 1 + k, ?_⟩
  rw [show n + 1 + k + 1 = (n + 1) + (k + 1) from rfl, climb_add, habove]
  exact hbelow

/-- The context of a status that is on no cycle is right. -/
theorem context_correct (hknown : RepliesKnown db) (hstatus : status ∈ db.statuses)
    (hcycle : ¬OnCycle (statusParent db) status.id) :
    ContextCorrect db status.id ancestorsLimit descendantsLimit depthLimit := by
  obtain ⟨n, hn⟩ := Nat.exists_eq_succ_of_ne_zero
    (Nat.pos_iff_ne_zero.mp (List.length_pos_of_mem hstatus))
  have hancestors := @restContextIds_ancestors db status.id depthLimit ancestorsLimit descendantsLimit
  have hdescendants := @restContextIds_descendants db status n depthLimit ancestorsLimit descendantsLimit
    hknown hstatus hcycle hn
  have htrail : (trail (statusParent db) db.statuses.length [] status.id).Nodup := by
    simpa using @trail_nodup ℤ (statusParent db) [] status.id db.statuses.length _ List.nodup_nil
  have hpreorder : (preorder (repliesTo db) (roomFor depthLimit n [status.id]) status.id).Nodup :=
    preorder_nodup (mem_repliesTo_iff hknown) (fun a => (repliesTo_sorted a).imp ne_of_lt)
      (climb_zero status.id) hcycle
  have habove : ∀ a ∈ (restContextIds db status.id ancestorsLimit descendantsLimit depthLimit).1,
      ∃ i, climb (statusParent db) (i + 1) status.id = some a := by
    intro a ha
    rw [hancestors, List.mem_reverse] at ha
    exact mem_ancestors.mp (List.mem_of_mem_take ha)
  have hbelow : ∀ a ∈ (restContextIds db status.id ancestorsLimit descendantsLimit depthLimit).2,
      ∃ k, climb (statusParent db) (k + 1) a = some status.id := by
    intro a ha
    rw [hdescendants] at ha
    obtain ⟨k, -, hk⟩ := (mem_preorder (mem_repliesTo_iff hknown)).mp (List.mem_of_mem_take ha)
    exact ⟨k, hk⟩
  constructor
  · exact fun rounds h => contextIdsAfter_eq hstatus h
  · exact fun hmem => hcycle (habove status.id hmem)
  · exact fun hmem => hcycle (hbelow status.id hmem)
  · rw [hancestors, List.nodup_reverse]
    exact htrail.sublist (List.take_sublist _ _)
  · rw [hdescendants]
    exact hpreorder.sublist (List.take_sublist _ _)
  · intro a ha hb
    obtain ⟨i, hi⟩ := habove a ha
    obtain ⟨k, hk⟩ := hbelow a hb
    exact ancestors_disjoint hcycle hi hk
  · exact ⟨_, htrail, fun i a => getElem?_trail, fun a => mem_ancestors, hancestors⟩
  · refine ⟨_, fun a => ?_, hdescendants⟩
    rw [mem_preorder (mem_repliesTo_iff hknown)]
    constructor
    · rintro ⟨k, hk, hclimb⟩
      refine ⟨k, ?_, hclimb⟩
      cases depthLimit with
      | none => rfl
      | some depth =>
        simp only [roomFor, List.length_singleton] at hk
        simpa using (by omega : k + 1 ≤ depth)
    · rintro ⟨k, hdepth, hclimb⟩
      refine ⟨k, ?_, hclimb⟩
      have hmem : a ∈ db.statuses.map Status.id := by
        cases hfound : db.status a with
        | some other =>
          obtain ⟨hother, rfl⟩ := Database.mem_of_status hfound
          exact List.mem_map_of_mem hother
        | none => simp [climb_succ, statusParent, hfound] at hclimb
      have hlength := climb_lt_length (fun _ _ => statusParent_mem) hmem hcycle hclimb
      rw [List.length_map, hn] at hlength
      cases depthLimit with
      | none => exact Nat.lt_of_succ_lt_succ hlength
      | some depth =>
        simp only [Option.all_some, decide_eq_true_eq] at hdepth
        simp only [roomFor, List.length_singleton]
        omega

/-- CORRECT (contexts): the contexts of a status are right, whatever their limits are, when and only when
    the status is on no cycle of replies. -/
theorem context_correct_iff (hknown : RepliesKnown db) (hstatus : status ∈ db.statuses) :
    (∀ ancestorsLimit descendantsLimit depthLimit,
      ContextCorrect db status.id ancestorsLimit descendantsLimit depthLimit) ↔
        ¬OnCycle (statusParent db) status.id := by
  constructor
  · intro h hcycle
    have hmem := mem_ancestors.mpr hcycle
    refine (h (trail (statusParent db) db.statuses.length [] status.id).length 0 none).notAncestor ?_
    rw [restContextIds_ancestors, List.mem_reverse, List.take_length]
    exact hmem
  · exact fun hcycle _ _ _ => context_correct hknown hstatus hcycle

/-! ### A thread and a cycle -/

def threadStatus (id : ℤ) (inReplyToId : Option ℤ) : Status where
  id := id
  accountId := 1
  text := ""
  spoilerText := ""
  visibility := 0
  isLocal := some true
  uri := none
  language := none
  reply := inReplyToId.isSome
  inReplyToId := inReplyToId
  inReplyToAccountId := none
  reblogOfId := none
  orderedMediaAttachmentIds := none
  deletedAt := none

/-- Three statuses, the second of them a reply to the first and the third one to the second. -/
def threadDatabase (first : Option ℤ) : Database :=
  { Database.empty with
    statuses := [threadStatus 1 first, threadStatus 2 (some 1), threadStatus 3 (some 2)]
    status_ids := by simp [threadStatus] }

theorem threadDatabase_known {first : Option ℤ} (h : ∀ id, first = some id → id = 2) :
    RepliesKnown (threadDatabase first) := by
  intro status hstatus id hid
  simp only [threadDatabase, List.mem_cons, List.not_mem_nil, or_false] at hstatus
  rcases hstatus with rfl | rfl | rfl
  · obtain rfl := h id hid
    exact ⟨_, rfl⟩
  · obtain rfl := Option.some.inj hid
    exact ⟨_, rfl⟩
  · obtain rfl := Option.some.inj hid
    exact ⟨_, rfl⟩

/-- The context of a status in the middle of a thread. -/
theorem context_correct_thread : ContextCorrect (threadDatabase none) 2 40 60 (some 20) := by
  have hstatus : threadStatus 2 (some 1) ∈ (threadDatabase none).statuses := by simp [threadDatabase]
  refine (context_correct_iff (threadDatabase_known (by simp)) hstatus).mpr ?_ 40 60 (some 20)
  rintro ⟨n, hn⟩
  have hparent : statusParent (threadDatabase none) 2 = some 1 := by decide
  have hroot : statusParent (threadDatabase none) 1 = none := by decide
  rw [show (threadStatus 2 (some 1)).id = 2 from rfl, climb_child hparent] at hn
  cases n with
  | zero => exact absurd hn (by decide)
  | succ n => simp [climb_root hroot] at hn

/-- A status that replies to a reply to itself is among its own ancestors. -/
theorem context_of_cycle : ¬∀ (db : Database) (status : Status), RepliesKnown db → status ∈ db.statuses →
    ∀ ancestorsLimit descendantsLimit depthLimit,
      ContextCorrect db status.id ancestorsLimit descendantsLimit depthLimit := by
  intro h
  have hcorrect := h (threadDatabase (some 2)) (threadStatus 1 (some 2))
    (threadDatabase_known (fun id hid => (Option.some.inj hid).symm)) (by simp [threadDatabase]) 40 60 (some 20)
  have hancestors : (restContextIds (threadDatabase (some 2)) 1 40 60 (some 20)).1 = [1, 2] := by
    rw [restContextIds_ancestors]
    decide
  refine hcorrect.notAncestor ?_
  rw [show (threadStatus 1 (some 2)).id = 1 from rfl, hancestors]
  exact List.mem_cons_self

end Rustodon.Timelines
