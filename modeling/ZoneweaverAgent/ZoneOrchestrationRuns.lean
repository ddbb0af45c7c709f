import ZoneweaverAgent.ZoneOrchestration
import Mathlib.Data.List.Perm.Basic

/-!
# When the orchestration respects priority

Nothing but the grouping keeps the tasks apart, and all groups are issued without waiting for each
other. So the order holds for every schedule only where there is nothing to order: all zones are in
one group.
-/

namespace ZoneweaverAgent.ZoneOrchestration
open Transition

variable {parseInt : Option Json → Option ℤ} {d : Direction} {options : Options}
  {zones : List ZoneRecord}

section Grouping

/-- The tasks of a grouping that is still being built. -/
def groupedIssues (groups : KeyedList ℕ (List Member)) : List Issue :=
  groups.flatMap fun group => group.2.map fun member => ⟨group.1, member.name⟩

theorem groupedIssues_set (groups : KeyedList ℕ (List Member)) (range : ℕ) (member : Member) :
    (groupedIssues (groups.set range ((groups.get range).getD [] ++ [member]))).Perm
      (⟨range, member.name⟩ :: groupedIssues groups) := by
  induction groups with
  | nil => exact .refl _
  | cons group rest ih =>
    obtain ⟨range', members⟩ := group
    by_cases h : range' = range
    · subst h
      simp only [KeyedList.set, if_true, KeyedList.get_cons, Option.getD_some, groupedIssues,
        List.flatMap_cons, List.map_append, List.append_assoc]
      exact List.perm_middle
    · simp only [KeyedList.set, if_neg h, KeyedList.get_cons]
      have hrest := (ih.append_left (members.map fun member => (⟨range', member.name⟩ : Issue)))
      exact hrest.trans List.perm_middle

theorem groupedIssues_foldl (groups : KeyedList ℕ (List Member)) (zones : List ZoneRecord) :
    (groupedIssues (zones.foldl (addToGroup parseInt) groups)).Perm
      (selected parseInt zones ++ groupedIssues groups) := by
  induction zones generalizing groups with
  | nil => exact .refl _
  | cons zone rest ih =>
    have hset := groupedIssues_set groups (priorityGroup parseInt zone)
      ⟨zone.name, extractZonePriority parseInt zone.configuration⟩
    exact (ih _).trans ((hset.append_left _).trans List.perm_middle)

/-- Grouping and sorting lose no zone and issue none twice. -/
theorem groups_issues (zones : List ZoneRecord) :
    ((groupZonesByPriority parseInt zones).flatMap Group.issues).Perm
      (selected parseInt zones) := by
  have hsorted : ((groupZonesByPriority parseInt zones).flatMap Group.issues).Perm
      (groupedIssues (zones.foldl (addToGroup parseInt) [])) := by
    unfold groupZonesByPriority groupedIssues
    rw [List.flatMap_map]
    refine (List.Perm.flatMap_right _ (List.perm_insertionSort _ _)).trans ?_
    refine List.Perm.flatMap_left _ fun group _ => ?_
    exact (List.perm_insertionSort _ group.2).map _
  simpa [groupedIssues] using hsorted.trans (groupedIssues_foldl [] zones)

end Grouping

section Runs
variable {issues : List Issue} {s s' : State}

def begun : Event → Option Issue
  | .begun issue => some issue
  | .finished _ => none

theorem countP_begins (zone : String) (history : List Event) :
    history.countP (begins zone) = ((history.filterMap begun).map Issue.zone).count zone := by
  induction history with
  | nil => rfl
  | cons event rest ih =>
    cases event with
    | begun issue =>
      have hmap : (Event.begun issue :: rest).filterMap begun = issue :: rest.filterMap begun := rfl
      rw [List.countP_cons, ih, hmap, List.map_cons, List.count_cons]
      simp [begins]
    | finished issue =>
      have hmap : (Event.finished issue :: rest).filterMap begun = rest.filterMap begun := rfl
      rw [List.countP_cons, ih, hmap]
      simp [begins]

/-- Every selected zone has been issued or waits for its group, and no task runs that was not
issued. -/
structure Accounts (issues : List Issue) (s : State) : Prop where
  issued : (s.history.filterMap begun ++ s.waiting.flatMap Group.issues).Perm issues
  running : s.running.length ≤ (s.history.filterMap begun).length

theorem filterMap_begun (issued : List Issue) :
    (issued.map Event.begun).filterMap begun = issued := by
  induction issued with
  | nil => rfl
  | cons issue rest ih => simpa [begun] using ih

theorem launch_accounts {groups waiting : List Group} (h : Accounts issues s)
    (hwaiting : (groups.flatMap Group.issues ++ waiting.flatMap Group.issues).Perm
      (s.waiting.flatMap Group.issues)) :
    Accounts issues (State.launch { s with waiting } groups) := by
  constructor
  · simp only [State.launch, List.filterMap_append, filterMap_begun, List.append_assoc]
    exact (hwaiting.append_left _).trans h.issued
  · have hle := h.running
    simp only [State.launch, List.filterMap_append, filterMap_begun, List.length_append]
    omega

theorem execute_issues (d : Direction) (zones : List ZoneRecord) (options : Options) :
    ∃ groups, d.execute parseInt zones options = startGroups groups options ∧
      (groups.flatMap Group.issues).Perm (selected parseInt zones) := by
  cases d with
  | shutdown => exact ⟨_, rfl, groups_issues zones⟩
  | startup =>
    refine ⟨_, rfl, ?_⟩
    have hreverse : (calculateStartupOrder parseInt zones).Perm
        (groupZonesByPriority parseInt zones) := List.reverse_perm _
    exact (hreverse.flatMap_right _).trans (groups_issues zones)

theorem execute_accounts (d : Direction) (zones : List ZoneRecord) (options : Options) :
    Accounts (selected parseInt zones) (d.execute parseInt zones options) := by
  obtain ⟨groups, hexecute, hperm⟩ := @execute_issues parseInt d zones options
  have hnone : Accounts (selected parseInt zones) ⟨groups, [], []⟩ := ⟨hperm, le_rfl⟩
  rw [hexecute]
  unfold startGroups
  split_ifs
  · refine launch_accounts hnone ?_
    rw [← List.flatMap_append, List.take_append_drop]
  · refine launch_accounts hnone ?_
    rw [List.flatMap_nil, List.append_nil]

theorem step_accounts (h : Accounts issues s) {l : Label} (hstep : step s l = some s') :
    Accounts issues s' := by
  cases l with
  | elapse k =>
    obtain ⟨group, hgroup, rfl⟩ := Option.map_eq_some_iff.mp hstep
    refine launch_accounts h ?_
    obtain ⟨hlt, rfl⟩ := List.getElem?_eq_some_iff.mp hgroup
    rw [← List.flatMap_append]
    exact (List.getElem_cons_eraseIdx_perm hlt).flatMap_right Group.issues
  | finish k =>
    obtain ⟨issue, hissue, rfl⟩ := Option.map_eq_some_iff.mp hstep
    have hlength := List.length_eraseIdx_le s.running k
    have hbegun : (s.history ++ [Event.finished issue]).filterMap begun = s.history.filterMap begun := by
      rw [List.filterMap_append]
      exact List.append_nil _
    constructor
    · rw [hbegun]
      exact h.issued
    · rw [hbegun]
      exact hlength.trans h.running

theorem execute_reaches_accounts
    (h : Reaches step (fun _ _ => True) (d.execute parseInt zones options) s) :
    Accounts (selected parseInt zones) s :=
  h.invariant (execute_accounts d zones options) fun _ _ _ ha _ hstep => step_accounts ha hstep

/-- The timers run out one after the other and no task finishes. -/
theorem reaches_launched (s : State) :
    Reaches step (fun _ _ => True) s (State.launch { s with waiting := [] } s.waiting) := by
  obtain ⟨waiting, running, history⟩ := s
  induction waiting generalizing running history with
  | nil =>
    simp only [State.launch, List.flatMap_nil, List.map_nil, List.append_nil]
    exact .refl
  | cons group rest ih =>
    have hrest := ih (running ++ group.issues) (history ++ group.issues.map .begun)
    have hlaunch : State.launch ⟨[], running ++ group.issues, history ++ group.issues.map .begun⟩
        rest = State.launch ⟨[], running, history⟩ (group :: rest) := by
      simp [State.launch, List.append_assoc]
    rw [hlaunch] at hrest
    refine .head (l := .elapse 0) trivial ?_ hrest
    simp [step, State.launch]

/-- A schedule in which every task has been issued and none has finished. -/
theorem exists_launched (d : Direction) (zones : List ZoneRecord) (options : Options) :
    ∃ issues, issues.Perm (selected parseInt zones) ∧
      Reaches step (fun _ _ => True) (d.execute parseInt zones options)
        ⟨[], issues, issues.map .begun⟩ := by
  obtain ⟨groups, hexecute, hperm⟩ := @execute_issues parseInt d zones options
  refine ⟨groups.flatMap Group.issues, hperm, ?_⟩
  have hreach := reaches_launched (startGroups groups options)
  rw [hexecute]
  have hall : State.launch { startGroups groups options with waiting := [] }
      (startGroups groups options).waiting =
      ⟨[], groups.flatMap Group.issues, (groups.flatMap Group.issues).map .begun⟩ := by
    unfold startGroups
    split_ifs
    · cases groups <;> simp [State.launch]
    · simp [State.launch]
  rwa [hall] at hreach

theorem begun_mem {past future : List Event} {issue : Issue} (h : Accounts issues s)
    (hhistory : s.history = past ++ .begun issue :: future) : issue ∈ issues := by
  refine h.issued.subset (List.mem_append_left _ (List.mem_filterMap.mpr ⟨.begun issue, ?_, rfl⟩))
  simp [hhistory]

theorem once_of_nodup (hnodup : (issues.map Issue.zone).Nodup) (h : Accounts issues s)
    {issue : Issue} (hissue : issue ∈ issues) :
    s.history.countP (begins issue.zone) ≤ 1 ∧
      (s.waiting = [] → s.history.countP (begins issue.zone) = 1) := by
  have hcount := (h.issued.map Issue.zone).count_eq issue.zone
  have hone : (issues.map Issue.zone).count issue.zone = 1 :=
    List.count_eq_one_of_mem hnodup (List.mem_map_of_mem hissue)
  rw [hone, List.map_append, List.count_append] at hcount
  rw [countP_begins]
  constructor
  · omega
  · intro hwaiting
    simp only [hwaiting, List.flatMap_nil, List.map_nil, List.count_nil] at hcount
    omega

theorem before_irrefl (d : Direction) (range : ℕ) : ¬ d.Before range range := by
  cases d <;> exact lt_irrefl range

theorem before_total (d : Direction) {range range' : ℕ} (h : range ≠ range') :
    d.Before range range' ∨ d.Before range' range := by
  rcases lt_or_gt_of_ne h with hlt | hlt <;> cases d <;> simp [Direction.Before, hlt]

end Runs

/-- The orchestration respects priority on every schedule exactly where all selected zones are in
one group, the sequential strategy has at most one zone, and no zone is selected twice. -/
theorem respects_iff (parseInt : Option Json → Option ℤ) (d : Direction) (zones : List ZoneRecord)
    (options : Options) :
    (∀ s, Reaches step (fun _ _ => True) (d.execute parseInt zones options) s →
      Respects d options (selected parseInt zones) s) ↔
    (∀ zone ∈ zones, ∀ zone' ∈ zones, priorityGroup parseInt zone = priorityGroup parseInt zone') ∧
      (options.strategy = "sequential" → zones.length ≤ 1) ∧
      (zones.map ZoneRecord.name).Nodup := by
  have hnames : (selected parseInt zones).map Issue.zone = zones.map ZoneRecord.name := by
    simp [selected, Function.comp_def]
  have hlength : (selected parseInt zones).length = zones.length := by simp [selected]
  constructor
  · intro hrespects
    obtain ⟨issues, hperm, hreach⟩ := @exists_launched parseInt d zones options
    have hstate := hrespects _ hreach
    refine ⟨fun zone hzone zone' hzone' => ?_, fun hsequential => ?_, ?_⟩
    · by_contra hne
      have hmem : ∀ z ∈ zones, (⟨priorityGroup parseInt z, z.name⟩ : Issue) ∈
          selected parseInt zones := fun z hz => List.mem_map_of_mem hz
      have hbroken : ∀ z ∈ zones, ∀ z' ∈ zones,
          ¬ d.Before (priorityGroup parseInt z) (priorityGroup parseInt z') := by
        intro z hz z' hz' hbefore
        obtain ⟨past, future, hsplit⟩ := List.append_of_mem (hperm.symm.subset (hmem z' hz'))
        have hcount := hstate.ordered (past.map .begun) ⟨priorityGroup parseInt z', z'.name⟩
          (future.map .begun) (by simp [hsplit]) _ (hmem z hz) hbefore
        have hpos := List.count_pos_iff.mpr (hmem z hz)
        have hzero : (past.map Event.begun).count (.finished ⟨priorityGroup parseInt z, z.name⟩) =
            0 := List.count_eq_zero.mpr (by simp)
        omega
      rcases before_total d hne with hbefore | hbefore
      · exact hbroken zone hzone zone' hzone' hbefore
      · exact hbroken zone' hzone' zone hzone hbefore
    · rw [← hlength, ← hperm.length_eq]
      exact hstate.sequential hsequential
    · rw [← hnames, List.nodup_iff_count_le_one]
      intro name
      by_cases hmem : name ∈ (selected parseInt zones).map Issue.zone
      · obtain ⟨issue, hissue, rfl⟩ := List.mem_map.mp hmem
        have hcount := (hstate.once issue hissue).1
        rw [countP_begins, filterMap_begun, (hperm.map Issue.zone).count_eq] at hcount
        exact hcount
      · rw [List.count_eq_zero.mpr hmem]
        exact Nat.zero_le 1
  · rintro ⟨hone, hsequential, hnodup⟩ s hs
    have haccounts := execute_reaches_accounts hs
    refine ⟨fun past issue future hhistory earlier hearlier hbefore => ?_,
      fun issue hissue => once_of_nodup (hnames ▸ hnodup) haccounts hissue, fun hstrategy => ?_⟩
    · obtain ⟨zone, hzone, rfl⟩ := List.mem_map.mp (begun_mem haccounts hhistory)
      obtain ⟨zone', hzone', rfl⟩ := List.mem_map.mp hearlier
      exact absurd (hone zone' hzone' zone hzone ▸ hbefore) (before_irrefl d _)
    · have hissued := haccounts.issued.length_eq
      rw [List.length_append, hlength] at hissued
      have hle := haccounts.running
      have hzones := hsequential hstrategy
      omega

section Counterexample

def wholeNumber : Option Json → Option ℤ
  | some (.num q) => some q.num
  | _ => none

def withPriority (name : String) (priority : ℕ) : ZoneRecord :=
  ⟨name, some (.obj [("attr", .arr [.obj [("name", .str "boot_priority"),
    ("value", .num priority)]])])⟩

def developmentAndDatabase : List ZoneRecord := [withPriority "dev" 5, withPriority "db" 90]

/-- The stop of the database is issued while the development zone is still stopping. -/
theorem respects_fails : ¬ ∀ (parseInt : Option Json → Option ℤ) (zones : List ZoneRecord)
    (options : Options), (zones.map ZoneRecord.name).Nodup → ∀ s,
      Reaches step (fun _ _ => True)
        (executeZoneShutdownOrchestration parseInt zones options) s →
      Respects .shutdown options (selected parseInt zones) s := by
  intro hclaim
  have hstate := hclaim wholeNumber developmentAndDatabase ⟨"parallel_by_priority", some 30⟩
    (by decide)
  obtain ⟨s, hs, hhistory⟩ := exists_reaches_of_run step (fun _ _ => True)
    (executeZoneShutdownOrchestration wholeNumber developmentAndDatabase
      ⟨"parallel_by_priority", some 30⟩) [.elapse 0]
    (P := fun s => s.history = [.begun ⟨10, "dev"⟩, .begun ⟨90, "db"⟩]) (by decide +kernel)
  have hcount := (hstate s hs).ordered [.begun ⟨10, "dev"⟩] ⟨90, "db"⟩ [] hhistory ⟨10, "dev"⟩
    (by decide +kernel) (show 10 < 90 by decide)
  revert hcount
  decide +kernel

end Counterexample

end ZoneweaverAgent.ZoneOrchestration
