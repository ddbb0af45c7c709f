import ZoneweaverAgent.NatRules

/-!
# What a NAT edit does to the other rules

A task preserves the other rules exactly when its writing works and what it writes is read back as
the rules of its rows, in the order of the file: every line of the file is understood or in the
table, every row that some line starts with is a rule of the file, and no description or quote adds
to, or takes from, what is read back.
-/

namespace ZoneweaverAgent.NatRules
open TextLines (trim readLines readLines_trim readLines_concat readLines_intercalate)

section Insertion
variable {α : Type*} [BEq α] [LawfulBEq α] {x : α} {before after : List α}

/-- One more element, in terms of membership and of the order of what both lists have. -/
theorem exists_inserted_iff (hbefore : before.Nodup) (hx : x ∉ before) :
    (∃ front back, before = front ++ back ∧ after = front ++ x :: back) ↔
      after.Nodup ∧ (∀ y, y ∈ after ↔ y ∈ before ∨ y = x) ∧
        after.filter (· ∈ before) = before.filter (· ∈ after) := by
  constructor
  · rintro ⟨front, back, rfl, rfl⟩
    have hnodup : (front ++ x :: back).Nodup :=
      (List.perm_middle.nodup_iff).mpr (List.nodup_cons.mpr ⟨hx, hbefore⟩)
    refine ⟨hnodup, fun y => ?_, ?_⟩
    · simp only [List.mem_append, List.mem_cons]
      tauto
    · rw [List.filter_append, List.filter_cons_of_neg (by simpa using hx), ← List.filter_append,
        List.filter_eq_self.mpr (fun y hy => by simpa using hy),
        List.filter_eq_self.mpr (fun y hy => ?_)]
      simp only [List.mem_append, List.mem_cons, decide_eq_true_eq] at hy ⊢
      tauto
  · rintro ⟨hafter, hmem, horder⟩
    have hall : before.filter (· ∈ after) = before :=
      List.filter_eq_self.mpr fun y hy => by simpa using (hmem y).mpr (.inl hy)
    obtain ⟨front, back, rfl⟩ := List.append_of_mem ((hmem x).mpr (.inr rfl))
    refine ⟨front, back, ?_, rfl⟩
    have hnot : x ∉ front ++ back :=
      (List.nodup_cons.mp ((List.perm_middle.nodup_iff).mp hafter)).1
    rw [hall, List.filter_append, List.filter_cons_of_neg (by simpa using hx),
      ← List.filter_append, List.filter_eq_self.mpr] at horder
    · exact horder.symm
    · intro y hy
      have hne : y ≠ x := fun h => hnot (h ▸ hy)
      have hin : y ∈ front ++ x :: back := by
        simp only [List.mem_append, List.mem_cons] at hy ⊢
        tauto
      simpa using ((hmem y).mp hin).resolve_right hne

end Insertion

section Reading
variable {line text : Text} {file : Option Text} {o : Outcomes}

theorem ruleLine_nil : ruleLine [] = [] := rfl

theorem mem_ruleLines (h : line ∈ ruleLines text) : ∀ c ∈ line.head?, isTrimmed c = false := by
  rw [ruleLines, readLines, List.mem_flatMap] at h
  obtain ⟨raw, -, hraw⟩ := h
  rw [ruleLine] at hraw
  split_ifs at hraw
  · cases hraw
  · rw [List.mem_singleton.mp hraw]
    exact fun c hc => TextLines.trim_head c hc

theorem mem_fileRules : line ∈ fileRules o file ↔
    o.reads = true ∧ ∃ text, file = some text ∧ line ∈ ruleLines text := by
  cases file with
  | none => simp [fileRules]
  | some text =>
    rw [fileRules, ruleLines, readLines_trim ruleLine_nil]
    split_ifs with hreads
    · rw [List.mem_eraseDups]
      simp [hreads, ruleLines]
    · simp [hreads]

theorem stripComment_prefix (rule : Text) : stripComment rule <+: rule := by
  induction rule with
  | nil => exact List.prefix_rfl
  | cons c rest ih =>
    rw [stripComment]
    split_ifs
    · exact List.nil_prefix
    · exact (List.prefix_cons_inj c).mpr ih

/-- A line starts with its rule. -/
theorem cleanRule_prefix (h : ∀ c ∈ line.head?, isTrimmed c = false) : cleanRule line <+: line := by
  have hstrip := stripComment_prefix line
  refine (TextLines.trim_prefix fun c hc => ?_).trans hstrip
  obtain ⟨rest, hrest⟩ := hstrip
  apply h c
  cases hs : stripComment line with
  | nil =>
    rw [hs] at hc
    cases hc
  | cons x xs =>
    rw [hs] at hc
    rw [← hrest, hs]
    exact hc

theorem rawRule_of_parse {rule : NatRule} (h : parseNatRule line = some rule) :
    rule.rawRule = cleanRule line := by
  unfold parseNatRule at h
  split at h
  · cases h
    rfl
  · cases h

theorem isSome_parse {other : Text} (h : cleanRule line = cleanRule other) :
    (parseNatRule line).isSome = (parseNatRule other).isSome := by
  unfold parseNatRule
  rw [h]
  split <;> rfl

theorem rulesOf_written (host : Host) (rows : List Row) :
    rulesOf (written host (configContent rows)) =
      if literal (configContent rows) then rows.flatMap fun row => rulesOf (ruleText row)
      else rulesOf (host.shell (configContent rows)) := by
  unfold written
  split_ifs
  · rw [rulesOf, ruleLines, readLines_concat ruleLine_nil (by decide), configContent,
      readLines_intercalate ruleLine_nil, List.map_flatMap, List.flatMap_map]
    rfl
  · rfl

end Reading

section Sync
variable (host : Host) (lines : List Text) (table : List Row)

def keptRows : List Row := table.filter (foundInFile lines)

def importedRows : List Row :=
  (imports lines table).map fun rule => ⟨host.uuid rule.rawRule, rule⟩

/-- The rows a synchronisation that goes through leaves. -/
def syncedRows : List Row := keptRows lines table ++ importedRows host lines table

/-- An unknown line has no target, or two of them are one rule with different comments. -/
def Rejected : Prop :=
  (∃ rule ∈ imports lines table, rule.target = none) ∨
    ¬((imports lines table).map NatRule.rawRule).Nodup

instance : Decidable (Rejected lines table) := inferInstanceAs (Decidable (_ ∨ _))

variable {host lines table}

theorem rawRules_append (rows rows' : List Row) :
    rawRules (rows ++ rows') = rawRules rows ++ rawRules rows' := List.map_append

theorem rawRules_create (rule : NatRule) :
    rawRules (table ++ [⟨host.uuid rule.rawRule, rule⟩]) = rawRules table ++ [rule.rawRule] :=
  rawRules_append table _

theorem not_known_of_mem_imports {rule : NatRule} (h : rule ∈ imports lines table) :
    rule.rawRule ∉ rawRules table := by
  obtain ⟨parsed, hparsed, rfl⟩ := List.mem_map.mp h
  simpa using (List.mem_filter.mp hparsed).2

theorem importAll_of {rules : List NatRule} (htarget : ∀ rule ∈ rules, rule.target ≠ none)
    (hnodup : (rules.map NatRule.rawRule).Nodup)
    (hnew : ∀ rule ∈ rules, rule.rawRule ∉ rawRules table) :
    importAll host table rules =
      (true, table ++ rules.map fun rule => ⟨host.uuid rule.rawRule, rule⟩) := by
  induction rules generalizing table with
  | nil => simp [importAll]
  | cons rule rest ih =>
    have hcreate : create host table rule = some (table ++ [⟨host.uuid rule.rawRule, rule⟩]) := by
      rw [create, if_neg]
      rintro (h | h)
      · exact htarget rule List.mem_cons_self h
      · exact hnew rule List.mem_cons_self h
    have hnodup' := List.nodup_cons.mp hnodup
    rw [importAll, hcreate]
    simp only
    rw [ih (fun r hr => htarget r (List.mem_cons_of_mem rule hr)) hnodup'.2]
    · simp
    · intro r hr hmem
      rw [rawRules_create, List.mem_append, List.mem_singleton] at hmem
      rcases hmem with hmem | heq
      · exact hnew r (List.mem_cons_of_mem rule hr) hmem
      · exact hnodup'.1 (heq ▸ List.mem_map_of_mem hr)

theorem importAll_true {rules : List NatRule} (h : (importAll host table rules).1 = true) :
    (∀ rule ∈ rules, rule.target ≠ none) ∧ (rules.map NatRule.rawRule).Nodup ∧
      ∀ rule ∈ rules, rule.rawRule ∉ rawRules table := by
  induction rules generalizing table with
  | nil => simp
  | cons rule rest ih =>
    rw [importAll] at h
    cases hcreate : create host table rule with
    | none =>
      rw [hcreate] at h
      cases h
    | some table' =>
      rw [hcreate] at h
      obtain ⟨htarget, hnodup, hnew⟩ := ih h
      rw [create] at hcreate
      split_ifs at hcreate with hcond
      cases hcreate
      rw [not_or] at hcond
      simp only [rawRules_create, List.mem_append, List.mem_singleton, not_or] at hnew
      refine ⟨?_, ?_, ?_⟩
      · simpa using ⟨hcond.1, htarget⟩
      · rw [List.map_cons, List.nodup_cons]
        refine ⟨fun hmem => ?_, hnodup⟩
        obtain ⟨r, hr, heq⟩ := List.mem_map.mp hmem
        exact (hnew r hr).2 heq
      · simpa using ⟨hcond.2, fun r hr => (hnew r hr).1⟩

theorem prune_append (hfresh : ∀ rule, host.uuid rule ∉ table.map Row.id) :
    prune lines table (table ++ importedRows host lines table) = syncedRows host lines table := by
  rw [prune, List.filter_append, syncedRows, keptRows]
  congr 1
  · apply List.filter_congr
    intro row hrow
    simp [List.mem_map_of_mem hrow]
  · apply List.filter_eq_self.mpr
    intro row hrow
    obtain ⟨rule, -, rfl⟩ := List.mem_map.mp hrow
    simp [hfresh rule.rawRule]

theorem sync_eq {o : Outcomes} {s : State} (hfresh : ∀ rule, host.uuid rule ∉ s.table.map Row.id)
    (h : ¬Rejected (fileRules o s.file) s.table) :
    syncDatabaseWithSystem host o s =
      (true, syncedRows host (fileRules o s.file) s.table) := by
  simp only [Rejected, not_or, not_exists, not_and, not_not] at h
  rw [syncDatabaseWithSystem, importAll_of h.1 h.2 fun rule => not_known_of_mem_imports]
  simp only [if_true]
  rw [← prune_append hfresh, importedRows]

theorem sync_rejected {o : Outcomes} {s : State} (h : Rejected (fileRules o s.file) s.table) :
    (syncDatabaseWithSystem host o s).1 = false := by
  rw [syncDatabaseWithSystem]
  split_ifs with himport
  · obtain ⟨htarget, hnodup, -⟩ := importAll_true himport
    rcases h with ⟨rule, hrule, hnone⟩ | hdup
    · exact absurd hnone (htarget rule hrule)
    · exact absurd hnodup hdup
  · rfl

theorem mem_synced {rule : Text} :
    rule ∈ rawRules (syncedRows host lines table) ↔
      rule ∈ rawRules (keptRows lines table) ∨
        rule ∉ rawRules table ∧
          ∃ line ∈ lines, (parseNatRule line).isSome = true ∧ cleanRule line = rule := by
  rw [syncedRows, rawRules_append, List.mem_append, importedRows, rawRules, rawRules, List.map_map,
    imports, List.map_map]
  refine or_congr Iff.rfl ?_
  simp only [List.mem_map, List.mem_filter, List.mem_filterMap, Function.comp_apply,
    decide_eq_true_eq]
  constructor
  · rintro ⟨parsed, ⟨⟨line, hline, hparse⟩, hnew⟩, rfl⟩
    exact ⟨hnew, line, hline, by rw [hparse]; rfl, (rawRule_of_parse hparse).symm⟩
  · rintro ⟨hnew, line, hline, hsome, rfl⟩
    obtain ⟨parsed, hparse⟩ := Option.isSome_iff_exists.mp hsome
    have hraw := rawRule_of_parse hparse
    exact ⟨parsed, ⟨⟨line, hline, hparse⟩, by rw [hraw]; exact hnew⟩, hraw⟩

theorem nodup_synced (hunique : (rawRules table).Nodup) (h : ¬Rejected lines table) :
    (rawRules (syncedRows host lines table)).Nodup := by
  simp only [Rejected, not_or, not_not] at h
  rw [syncedRows, rawRules_append]
  have himported : rawRules (importedRows host lines table) =
      (imports lines table).map NatRule.rawRule := by
    rw [rawRules, importedRows, List.map_map]
    rfl
  refine List.Nodup.append ?_ (himported ▸ h.2) ?_
  · exact hunique.sublist (List.filter_sublist.map _)
  · intro rule hkept himp
    rw [himported] at himp
    obtain ⟨r, hr, rfl⟩ := List.mem_map.mp himp
    exact not_known_of_mem_imports hr ((List.filter_sublist.map _).subset hkept)

end Sync

section Condition
variable (host : Host) (o : Outcomes) (s : State)

/-- The rules the file has once the rows are written. -/
def readBack (rows : List Row) : List Text :=
  if literal (configContent (host.findAll rows)) then
    (host.findAll rows).flatMap fun row => rulesOf (ruleText row)
  else rulesOf (host.shell (configContent (host.findAll rows)))

/-- The synchronised table has the rules of the file: the file is read, its lines are understood or
known, and no row is kept for a line that merely starts like it. -/
structure Faithful : Prop where
  seen : o.reads = true ∨ s.rules = []
  understood : ∀ line ∈ fileRules o s.file,
    (parseNatRule line).isSome = true ∨ cleanRule line ∈ rawRules s.table
  honest : ∀ row ∈ keptRows (fileRules o s.file) s.table, row.rule.rawRule ∈ s.rules

/-- What the rows are written to is read back as their rules, in the order of the file. -/
structure ReadsBack (rows : List Row) : Prop where
  perm : (readBack host rows).Perm (rawRules rows)
  ordered : (readBack host rows).filter (· ∈ s.rules.eraseDups) =
    s.rules.eraseDups.filter (· ∈ readBack host rows)

/-- When a task preserves the other rules. -/
def Careful (task : Task) : Prop :=
  ¬Rejected (fileRules o s.file) s.table →
    match task with
    | .create m => ∀ rule, newRule m = .ok rule →
        rule.rawRule ∉ s.rules ∧ o.writes = true ∧ Faithful o s ∧
          ReadsBack host s
            (syncedRows host (fileRules o s.file) s.table ++ [⟨host.uuid rule.rawRule, rule⟩])
    | .delete ruleId => ∀ row ∈ keptRows (fileRules o s.file) s.table, row.id = ruleId →
        o.writes = true ∧ Faithful o s ∧
          ReadsBack host s
            ((syncedRows host (fileRules o s.file) s.table).filter fun row => row.id ≠ ruleId)

variable {host o s}

theorem mem_rules {rule : Text} :
    rule ∈ s.rules ↔ ∃ text, s.file = some text ∧ ∃ line ∈ ruleLines text, cleanRule line = rule := by
  rw [State.rules]
  cases s.file with
  | none => simp
  | some text => simp [rulesOf]

theorem clean_mem_rules {line : Text} (h : line ∈ fileRules o s.file) : cleanRule line ∈ s.rules := by
  obtain ⟨-, text, hfile, hline⟩ := mem_fileRules.mp h
  exact mem_rules.mpr ⟨text, hfile, line, hline, rfl⟩

theorem faithful_iff : Faithful o s ↔ ∀ rule,
    rule ∈ rawRules (syncedRows host (fileRules o s.file) s.table) ↔ rule ∈ s.rules := by
  constructor
  · intro h rule
    rw [mem_synced]
    constructor
    · rintro (hkept | ⟨-, line, hline, -, rfl⟩)
      · obtain ⟨row, hrow, rfl⟩ := List.mem_map.mp hkept
        exact h.honest row hrow
      · exact clean_mem_rules hline
    · intro hrule
      obtain ⟨text, hfile, line, hline, rfl⟩ := mem_rules.mp hrule
      have hreads : o.reads = true := h.seen.resolve_right (List.ne_nil_of_mem hrule)
      have hread : line ∈ fileRules o s.file := mem_fileRules.mpr ⟨hreads, text, hfile, hline⟩
      by_cases hknown : cleanRule line ∈ rawRules s.table
      · obtain ⟨row, hrow, hraw⟩ := List.mem_map.mp hknown
        refine .inl (hraw ▸ List.mem_map_of_mem (List.mem_filter.mpr ⟨hrow, ?_⟩))
        rw [foundInFile, List.any_eq_true]
        refine ⟨line, hread, ?_⟩
        rw [List.isPrefixOf_iff_prefix, hraw]
        exact cleanRule_prefix (mem_ruleLines hline)
      · exact .inr ⟨hknown, line, hread, (h.understood line hread).resolve_right hknown, rfl⟩
  · intro h
    constructor
    · by_contra hnot
      rw [not_or] at hnot
      obtain ⟨rule, hrule⟩ := List.exists_mem_of_ne_nil _ hnot.2
      have hlines : ∃ line, line ∈ fileRules o s.file := by
        rcases mem_synced.mp ((h rule).mpr hrule) with hkept | ⟨-, line, hline, -⟩
        · obtain ⟨row, hrow, -⟩ := List.mem_map.mp hkept
          obtain ⟨line, hline, -⟩ := List.any_eq_true.mp (List.mem_filter.mp hrow).2
          exact ⟨line, hline⟩
        · exact ⟨line, hline⟩
      obtain ⟨line, hline⟩ := hlines
      exact hnot.1 (mem_fileRules.mp hline).1
    · intro line hline
      rcases mem_synced.mp ((h _).mpr (clean_mem_rules hline)) with hkept | ⟨-, other, -, hsome, heq⟩
      · exact .inr ((List.filter_sublist.map _).subset hkept)
      · exact .inl (isSome_parse heq ▸ hsome)
    · intro row hrow
      exact (h _).mp (mem_synced.mpr (.inl (List.mem_map_of_mem hrow)))

theorem rules_written (rows : List Row) :
    State.rules ⟨some (written host (configContent (host.findAll rows))), rows⟩ =
      readBack host rows := by
  rw [State.rules, Option.map_some, Option.getD_some, rulesOf_written, readBack]

end Condition

section Create
variable {host : Host} {o : Outcomes} {s : State} {m : Metadata} {rule : NatRule}

/-- The table and the file agree and the file has one more rule. -/
theorem inserted_iff {rows : List Row} {R : Text} (hunique : (rawRules rows).Nodup)
    (hnew : R ∉ rawRules (syncedRows host (fileRules o s.file) s.table))
    (hrows : ∀ r, r ∈ rawRules rows ↔
      r ∈ rawRules (syncedRows host (fileRules o s.file) s.table) ∨ r = R) :
    (Inserted R s.rules.eraseDups (readBack host rows) ∧
        ∀ r, r ∈ rawRules rows ↔ r ∈ readBack host rows) ↔
      R ∉ s.rules ∧ Faithful o s ∧ ReadsBack host s rows := by
  have hbefore : s.rules.eraseDups.Nodup := KeyedList.nodup_eraseDups _
  rw [Inserted, List.mem_eraseDups, @faithful_iff host o s]
  constructor
  · rintro ⟨⟨hR, hinserted⟩, htable⟩
    have hR' : R ∉ s.rules.eraseDups := by rwa [List.mem_eraseDups]
    obtain ⟨hnodup, hmem, horder⟩ := (exists_inserted_iff hbefore hR').mp hinserted
    refine ⟨hR, fun r => ?_, ⟨?_, horder⟩⟩
    · have hall := (hrows r).symm.trans ((htable r).trans (hmem r))
      rw [List.mem_eraseDups] at hall
      constructor
      · intro hr
        exact (hall.mp (.inl hr)).resolve_right fun heq => hnew (heq ▸ hr)
      · intro hr
        exact (hall.mpr (.inl hr)).resolve_right fun heq => hR (heq ▸ hr)
    · exact (List.perm_ext_iff_of_nodup hnodup hunique).mpr fun r => (htable r).symm
  · rintro ⟨hR, hfaithful, hback⟩
    have hR' : R ∉ s.rules.eraseDups := by rwa [List.mem_eraseDups]
    refine ⟨⟨hR, (exists_inserted_iff hbefore hR').mpr ⟨?_, fun r => ?_, hback.ordered⟩⟩, fun r => ?_⟩
    · exact hback.perm.nodup_iff.mpr hunique
    · rw [hback.perm.mem_iff, hrows, hfaithful, List.mem_eraseDups]
    · exact hback.perm.mem_iff.symm

theorem create_iff (hunique : (rawRules s.table).Nodup)
    (hfresh : ∀ rule, host.uuid rule ∉ s.table.map Row.id)
    (hok : ¬Rejected (fileRules o s.file) s.table) (hrule : newRule m = .ok rule) :
    Preserves host o (.create m) s ↔
      rule.rawRule ∉ s.rules ∧ o.writes = true ∧ Faithful o s ∧
        ReadsBack host s
          (syncedRows host (fileRules o s.file) s.table ++ [⟨host.uuid rule.rawRule, rule⟩]) := by
  have hsynced := @nodup_synced host _ _ hunique hok
  simp only [Preserves, Task.execute, executeCreateNatRuleTask, hrule, sync_eq hfresh hok]
  rw [if_neg (by nofun)]
  by_cases hexists : rule.rawRule ∈ rawRules (syncedRows host (fileRules o s.file) s.table)
  · rw [if_pos hexists]
    constructor
    · rintro ⟨⟨rule', hrule', hnot, front, back, -, hafter⟩, -⟩
      rw [hrule] at hrule'
      cases hrule'
      have hmem : rule.rawRule ∈ s.rules := by
        change s.rules = _ at hafter
        rw [hafter]
        simp
      exact absurd (List.mem_eraseDups.mpr hmem) hnot
    · rintro ⟨hnot, -, hfaithful, -⟩
      exact absurd ((faithful_iff.mp hfaithful _).mp hexists) hnot
  · rw [if_neg hexists, regenerate]
    split_ifs with hwrites
    · have hrows : ∀ r, r ∈ rawRules (syncedRows host (fileRules o s.file) s.table ++
          [⟨host.uuid rule.rawRule, rule⟩]) ↔
          r ∈ rawRules (syncedRows host (fileRules o s.file) s.table) ∨ r = rule.rawRule := by
        intro r
        rw [rawRules_create, List.mem_append, List.mem_singleton]
      have hnodup : (rawRules (syncedRows host (fileRules o s.file) s.table ++
          [⟨host.uuid rule.rawRule, rule⟩])).Nodup := by
        rw [rawRules_create, List.nodup_append]
        refine ⟨hsynced, List.nodup_singleton _, fun a ha b hb => ?_⟩
        rw [List.mem_singleton.mp hb]
        exact fun heq => hexists (heq ▸ ha)
      simp only [Task.Changes, rules_written, hrule, Except.ok.injEq, exists_eq_left',
        inserted_iff hnodup hexists hrows, hwrites, true_and]
    · simp only [hwrites, Bool.false_eq_true, false_and, and_false, iff_false]
      intro htable
      apply hfresh rule.rawRule
      rw [← htable]
      simp

end Create

section Delete
variable {host : Host} {o : Outcomes} {s : State} {row : Row}

/-- The table and the file agree and the file has lost one rule. -/
theorem removed_iff {rows : List Row} {R : Text} (hunique : (rawRules rows).Nodup)
    (hold : R ∈ rawRules (syncedRows host (fileRules o s.file) s.table))
    (hrows : ∀ r, r ∈ rawRules rows ↔
      r ∈ rawRules (syncedRows host (fileRules o s.file) s.table) ∧ r ≠ R) :
    (Inserted R (readBack host rows) s.rules.eraseDups ∧
        ∀ r, r ∈ rawRules rows ↔ r ∈ readBack host rows) ↔
      Faithful o s ∧ ReadsBack host s rows := by
  have hbefore : s.rules.eraseDups.Nodup := KeyedList.nodup_eraseDups _
  rw [Inserted, @faithful_iff host o s]
  constructor
  · rintro ⟨⟨hR, front, back, hfront, hback⟩, htable⟩
    have hnodup : (front ++ back).Nodup := by
      rw [hback] at hbefore
      exact (List.nodup_cons.mp ((List.perm_middle.nodup_iff).mp hbefore)).2
    rw [← hfront] at hnodup
    obtain ⟨-, hmem, horder⟩ := (exists_inserted_iff hnodup hR).mp ⟨front, back, hfront, hback⟩
    refine ⟨fun r => ?_, ⟨?_, horder.symm⟩⟩
    · have hall := (hrows r).symm.trans (htable r)
      have hr := hmem r
      rw [List.mem_eraseDups] at hr
      rw [hr, ← hall]
      constructor
      · intro h
        by_cases heq : r = R
        · exact .inr heq
        · exact .inl ⟨h, heq⟩
      · rintro (h | rfl)
        · exact h.1
        · exact hold
    · exact (List.perm_ext_iff_of_nodup hnodup hunique).mpr fun r => (htable r).symm
  · rintro ⟨hfaithful, hback⟩
    have hnot : R ∉ readBack host rows := by
      rw [hback.perm.mem_iff, hrows]
      exact fun h => h.2 rfl
    have hnodup : (readBack host rows).Nodup := hback.perm.nodup_iff.mpr hunique
    refine ⟨⟨hnot, (exists_inserted_iff hnodup hnot).mpr
      ⟨hbefore, fun r => ?_, hback.ordered.symm⟩⟩, fun r => ?_⟩
    · rw [hback.perm.mem_iff, hrows, hfaithful, List.mem_eraseDups]
      constructor
      · intro h
        by_cases heq : r = R
        · exact .inr heq
        · exact .inl ⟨h, heq⟩
      · rintro (h | rfl)
        · exact h.1
        · exact (hfaithful _).mp hold
    · exact hback.perm.mem_iff.symm

/-- An id that the database has not made up now is that of a kept row. -/
theorem kept_of_id {ruleId : ℕ} (hfresh : ∀ rule, host.uuid rule ≠ ruleId) {lines : List Text}
    {table : List Row} (hrow : row ∈ syncedRows host lines table) (hid : row.id = ruleId) :
    row ∈ keptRows lines table := by
  rcases List.mem_append.mp hrow with hkept | himported
  · exact hkept
  · obtain ⟨rule, -, rfl⟩ := List.mem_map.mp himported
    exact absurd hid (hfresh _)

theorem delete_iff {ruleId : ℕ} (hunique : (rawRules s.table).Nodup)
    (hids : (s.table.map Row.id).Nodup) (hfresh : ∀ rule, host.uuid rule ∉ s.table.map Row.id)
    (hid : ∀ rule, host.uuid rule ≠ ruleId) (hok : ¬Rejected (fileRules o s.file) s.table) :
    Preserves host o (.delete ruleId) s ↔
      ∀ row ∈ keptRows (fileRules o s.file) s.table, row.id = ruleId →
        o.writes = true ∧ Faithful o s ∧
          ReadsBack host s
            ((syncedRows host (fileRules o s.file) s.table).filter fun row => row.id ≠ ruleId) := by
  have hsynced := @nodup_synced host _ _ hunique hok
  have hkept : ∀ row ∈ keptRows (fileRules o s.file) s.table,
      row ∈ syncedRows host (fileRules o s.file) s.table ∧ row ∈ s.table :=
    fun row hrow => ⟨List.mem_append_left _ hrow, (List.mem_filter.mp hrow).1⟩
  simp only [Preserves, Task.execute, executeDeleteNatRuleTask, sync_eq hfresh hok]
  rw [if_neg (by nofun)]
  cases hfind : (syncedRows host (fileRules o s.file) s.table).find? fun row => row.id = ruleId with
  | none =>
    simp only [true_iff]
    intro row hrow heq
    have := List.find?_eq_none.mp hfind row (hkept row hrow).1
    simp [heq] at this
  | some row =>
    have hrowid : row.id = ruleId := by simpa using List.find?_some hfind
    have hrow := kept_of_id hid (List.mem_of_find?_eq_some hfind) hrowid
    have hsame : ∀ other ∈ s.table, other.id = ruleId → other = row :=
      fun other hother heq => List.inj_on_of_nodup_map hids hother (hkept row hrow).2
        (heq.trans hrowid.symm)
    have hcond : ∀ P : Prop, (∀ other ∈ keptRows (fileRules o s.file) s.table,
        other.id = ruleId → P) ↔ P :=
      fun P => ⟨fun h => h row hrow hrowid, fun h _ _ _ => h⟩
    rw [hcond]
    simp only [regenerate]
    split_ifs with hwrites
    · have hrows : ∀ r, r ∈ rawRules ((syncedRows host (fileRules o s.file) s.table).filter
          fun row => row.id ≠ ruleId) ↔
          r ∈ rawRules (syncedRows host (fileRules o s.file) s.table) ∧ r ≠ row.rule.rawRule := by
        intro r
        simp only [rawRules, List.mem_map, List.mem_filter, decide_eq_true_eq]
        constructor
        · rintro ⟨other, ⟨hother, hne⟩, rfl⟩
          refine ⟨⟨other, hother, rfl⟩, fun heq => ?_⟩
          have := List.inj_on_of_nodup_map hsynced hother (hkept row hrow).1 heq
          exact hne (this ▸ hrowid)
        · rintro ⟨⟨other, hother, rfl⟩, hne⟩
          refine ⟨other, ⟨hother, fun heq => hne ?_⟩, rfl⟩
          rw [hsame other (hkept other (kept_of_id hid hother heq)).2 heq]
      have hnodup : (rawRules ((syncedRows host (fileRules o s.file) s.table).filter
          fun row => row.id ≠ ruleId)).Nodup := hsynced.sublist (List.filter_sublist.map _)
      have hold : row.rule.rawRule ∈ rawRules (syncedRows host (fileRules o s.file) s.table) :=
        List.mem_map_of_mem (hkept row hrow).1
      have hchange : Task.Changes (.delete ruleId) s ⟨some (written host (configContent
          (host.findAll ((syncedRows host (fileRules o s.file) s.table).filter
            fun row => row.id ≠ ruleId)))), (syncedRows host (fileRules o s.file) s.table).filter
              fun row => row.id ≠ ruleId⟩ ↔
          Inserted row.rule.rawRule (readBack host ((syncedRows host (fileRules o s.file)
            s.table).filter fun row => row.id ≠ ruleId)) s.rules.eraseDups := by
        rw [Task.Changes, rules_written]
        constructor
        · rintro ⟨other, hother, heq, hins⟩
          rwa [← hsame other hother heq]
        · exact fun hins => ⟨row, (hkept row hrow).2, hrowid, hins⟩
      simp only
      rw [hchange, rules_written, removed_iff hnodup hold hrows]
      simp only [hwrites, true_and]
    · simp only [hwrites, Bool.false_eq_true, false_and, iff_false]
      intro htable
      have hmem := (hkept row hrow).2
      rw [← htable, List.mem_filter] at hmem
      simp [hrowid] at hmem

end Delete

/-- The ids a task knows before it starts. -/
def Task.known (task : Task) (s : State) : List ℕ :=
  match task with
  | .create _ => s.table.map Row.id
  | .delete ruleId => ruleId :: s.table.map Row.id

def plainHost : Host := ⟨fun _ => 7, id, id, "failed"⟩

def works : Outcomes := ⟨true, true, none⟩

/-- A request for `map net0 10.1.0.0/24 -> 0/32 portmap tcp/udp auto`. -/
def lanRule : Metadata :=
  ⟨some "net0".toList, some "10.1.0.0/24".toList, none, none, none, none, none⟩

def portmapLine : Text := "map net0 10.0.0.0/24 -> 0/32 portmap tcp/udp auto # lan".toList

/-- A rule the agent knows, of which the line above is a longer one. -/
def plainRow : Row :=
  ⟨1, ⟨"map".toList, "net0".toList, "10.0.0.0/24".toList, some "0/32".toList, "any".toList,
    "map net0 10.0.0.0/24 -> 0/32".toList, none, none⟩⟩

theorem length_rules_of_create {host : Host} {o : Outcomes} {m : Metadata} {s : State}
    {message : String} (h : Preserves host o (.create m) s)
    (hend : (Task.execute host o (.create m) s).1 = .succeeded message) :
    (Task.execute host o (.create m) s).2.rules.length = s.rules.eraseDups.length + 1 := by
  unfold Preserves at h
  cases hex : Task.execute host o (.create m) s with
  | mk ending s' =>
    rw [hex] at h hend
    cases hend
    obtain ⟨⟨rule, -, -, front, back, hbefore, hafter⟩, -⟩ := h
    rw [hbefore, hafter]
    simp
    omega

end ZoneweaverAgent.NatRules
