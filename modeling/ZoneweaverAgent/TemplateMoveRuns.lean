import Mathlib.Data.List.TakeWhile
import ZoneweaverAgent.TemplateMove

/-!
# Moves that lose nothing

What is left behind by a move, for every outcome of every command: the row names a dataset with the
template's snapshot, every machine and every other dataset is still there, and a failed move can be
done again.
-/

namespace ZoneweaverAgent.TemplateMove
open DatasetTree
open PathTree (AtOrBelow)

variable {Data : Type}

/-! ## The property and the condition -/

section Property
variable (blank D : Data) (machines : Path → Prop) (target : Path) (forcePromote : Bool)

/-- ZFS admits no blanks and no commas in names, and none is a mere dash. -/
def Nameable (name : Path) : Prop :=
  name ≠ [] ∧ name ≠ ['-'] ∧ ∀ c ∈ name, c.isWhitespace = false ∧ c ≠ ','

instance (name : Path) : Decidable (Nameable name) :=
  @instDecidableAnd _ _ inferInstance (@instDecidableAnd _ _ inferInstance (List.decidableBAll _ _))

/-- The state in which a move begins. -/
structure Stored (s : Store Data) : Prop where
  wellFormed : WellFormed '/' s.tree
  names : ∀ c ∈ clones s.tree s.row ready, Nameable c
  template : ∃ d, s.tree.get s.row = some d ∧ (d.find ready).map Snapshot.data = some D
  machines : ¬machines s.row

/-- Nothing is lost between `s` and the end of the move. -/
structure NothingLost (s : Store Data) (r : Bool × Store Data) : Prop where
  template : ∃ d x, r.2.tree.get r.2.row = some d ∧ x ∈ d.snapshots ∧ x.name = ready ∧ x.data = D
  machines : ∀ m d, machines m → s.tree.get m = some d →
    ∃ d', r.2.tree.get m = some d' ∧ Holds d d'
  others : ∀ p d, p ≠ s.row → s.tree.get p = some d → ∃ d', Holds d d' ∧
    (r.2.tree.get p = some d' ∨
      AtOrBelow '/' s.row p ∧ r.2.tree.get (relocate '/' s.row target p) = some d')
  /-- if the move would have gone through without the failure, it does so the next time -/
  retry : r.1 = false → (executeTemplateMoveTask blank target forcePromote allWork s).1 = true →
    (executeTemplateMoveTask blank target forcePromote allWork r.2).1 = true

/-- The move goes through when every command works. -/
def Possible (s : Store Data) : Prop :=
  s.tree.has (pool '/' target) = true ∧ s.tree.has target = false ∧
    if pool '/' s.row = pool '/' target then ¬AtOrBelow '/' s.row target
    else match clones s.tree s.row ready with
      | [] => True
      | c :: _ => forcePromote = true ∧ (promote s.tree c).isSome = true

/-- No dataset, or no dataset of a machine, lies below the template's. -/
def NothingBelow (s : Store Data) : Prop :=
  ∀ p, s.tree.has p = true → AtOrBelow '/' s.row p → p = s.row

def NoMachineBelow (s : Store Data) : Prop :=
  ∀ m, machines m → s.tree.has m = true → ¬AtOrBelow '/' s.row m

/-- The stream arrives: nothing is at the target, its parent is there or is created, and neither
stops the task. -/
def Arrives (o : Outcomes) (s : Store Data) : Prop :=
  s.tree.has target = false ∧ (o.createParent = .works ∨ o.parentExists = true) ∧
    (o.createParent ≠ .fails ∨ s.tree.has (parent target) = true) ∧ o.sendRecv ≠ .fails

/-- The original is destroyed, in the tree `t` behind the promotion. -/
def Destroyed (o : Outcomes) (s : Store Data) (t : ZfsTree Data) : Prop :=
  o.destroy ≠ .fails ∧ Detached '/' t s.row

/-- What happens behind the arrival of the stream does no harm. -/
def EndsWell (o : Outcomes) (s : Store Data) (t : ZfsTree Data) : Prop :=
  if o.sendRecv = .works ∧ o.verify = .works then
    match o.update with
    | .works => Destroyed o s t → NothingBelow s
    | .fails => ¬Destroyed o s t ∧ ¬Possible target forcePromote s
    | .late => (Destroyed o s t → NothingBelow s) ∧ ¬Possible target forcePromote s
  else ¬Possible target forcePromote s

/-- The clones that the task sees. -/
def seenClones (o : Outcomes) (s : Store Data) : List Path :=
  if o.getClones = .fails then [] else clones s.tree s.row ready

/-- When a rename takes effect, it works, as do all that follow; a promotion takes effect only to be
followed by a transfer that ends well; a transfer ends well. -/
def Harmless (o : Outcomes) (s : Store Data) : Prop :=
  o.poolCheck = .works → s.tree.has (pool '/' target) = true →
    if pool '/' s.row = pool '/' target then
      s.tree.has target = false → ¬AtOrBelow '/' s.row target → o.rename ≠ .fails →
        o.rename = .works ∧ o.verify = .works ∧ o.update = .works ∧ NoMachineBelow machines s
    else o.snapCheck = .works →
      match seenClones o s with
      | [] => Arrives target o s → EndsWell target forcePromote o s s.tree
      | c :: _ => forcePromote = true → ∀ t ∈ promote s.tree c, o.promote ≠ .fails →
          o.promote = .works ∧ Arrives target o s ∧ EndsWell target forcePromote o s t

end Property

/-! ## Paths and names -/

theorem trim_eq_self {text : List Char} (h : ∀ c ∈ text, c.isWhitespace = false) :
    trim text = text := by
  have hdrop : ∀ {cs : List Char}, (∀ c ∈ cs, c.isWhitespace = false) →
      cs.dropWhile Char.isWhitespace = cs := by
    intro cs hcs
    cases cs with
    | nil => rfl
    | cons c cs =>
      rw [List.dropWhile_cons_of_neg]
      rw [hcs c List.mem_cons_self]
      exact Bool.false_ne_true
  have hrev : ∀ c ∈ text.reverse, c.isWhitespace = false := fun c hc => h c (List.mem_reverse.mp hc)
  rw [trim, hdrop h, hdrop hrev, List.reverse_reverse]

theorem mem_intersperse {α : Type} {sep l : α} {ls : List α} (h : l ∈ ls.intersperse sep) :
    l = sep ∨ l ∈ ls := by
  induction ls with
  | nil => cases h
  | cons a ls ih =>
    cases ls with
    | nil => exact .inr h
    | cons b ls =>
      rw [List.intersperse_cons_cons] at h
      rcases List.mem_cons.mp h with rfl | h
      · exact .inr List.mem_cons_self
      · rcases List.mem_cons.mp h with rfl | h
        · exact .inl rfl
        · exact (ih h).imp_right fun h => List.mem_cons_of_mem a h

theorem parse_clonesText {names : List Path} (h : ∀ n ∈ names, Nameable n) :
    parseDependentClones (clonesText names) = names := by
  by_cases hnil : names = []
  · subst hnil
    rfl
  · have hsplit : (List.intercalate [','] names).splitOn ',' = names :=
      List.splitOn_intercalate ',' (fun n hn hcomma => ((h n hn).2.2 ',' hcomma).2 rfl) hnil
    have hblank : ∀ c ∈ List.intercalate [','] names, c.isWhitespace = false := by
      intro c hc
      obtain ⟨l, hl, hcl⟩ := List.mem_flatten.mp hc
      rcases mem_intersperse hl with rfl | hname
      · rw [List.mem_singleton.mp hcl]
        rfl
      · exact ((h l hname).2.2 c hcl).1
    have hempty : List.intercalate [','] names ≠ [] := by
      intro heq
      rw [heq] at hsplit
      exact (h [] (by rw [← hsplit]; exact List.mem_singleton_self _)).1 rfl
    have hdash : List.intercalate [','] names ≠ ['-'] := by
      intro heq
      rw [heq] at hsplit
      exact (h ['-'] (by rw [← hsplit]; exact List.mem_singleton_self _)).2.1 rfl
    have hnames : ∀ n ∈ names, trim n = n := fun n hn =>
      trim_eq_self fun c hc => ((h n hn).2.2 c hc).1
    rw [clonesText, if_neg hnil, parseDependentClones, trim_eq_self hblank,
      if_neg (by simp [hempty, hdash]), hsplit, List.map_congr_left hnames, List.map_id']
    exact List.filter_eq_self.mpr fun n hn => by simpa using (h n hn).1

theorem parent_cases (p : Path) :
    '/' ∉ p ∧ parent p = [] ∨ ∃ name, p = parent p ++ '/' :: name := by
  have hsplit : p.reverse = p.reverse.takeWhile (· ≠ '/') ++ p.reverse.dropWhile (· ≠ '/') :=
    List.takeWhile_append_dropWhile.symm
  have hhead := List.head?_dropWhile_not (· ≠ '/') p.reverse
  cases hdrop : p.reverse.dropWhile (· ≠ '/') with
  | nil =>
    refine .inl ⟨fun hmem => ?_, by rw [parent, hdrop]; rfl⟩
    rw [hdrop, List.append_nil] at hsplit
    have hmem' := List.mem_reverse.mpr hmem
    rw [hsplit] at hmem'
    have := List.mem_takeWhile_imp hmem'
    simp at this
  | cons c rest =>
    rw [hdrop] at hhead hsplit
    have hc : c = '/' := by simpa using hhead
    subst hc
    have hparent : parent p = rest.reverse := by
      rw [parent, hdrop]
      rfl
    refine .inr ⟨(p.reverse.takeWhile (· ≠ '/')).reverse, ?_⟩
    have := congrArg List.reverse hsplit
    rw [List.reverse_reverse] at this
    rw [hparent]
    simpa using this

section Parents
variable {target : Path}

theorem parent_above (h : parent target ≠ []) : AtOrBelow '/' (parent target) target := by
  rcases parent_cases target with ⟨-, hnil⟩ | ⟨name, heq⟩
  · exact absurd hnil h
  · refine .inr ⟨name, ?_⟩
    rw [List.append_assoc]
    exact heq.symm

theorem not_below_parent (h : target ≠ []) : ¬AtOrBelow '/' target (parent target) := by
  intro hbelow
  have hle := hbelow.isPrefix.length_le
  rcases parent_cases target with ⟨-, hnil⟩ | ⟨name, heq⟩
  · rw [hnil] at hle
    exact h (List.length_eq_zero_iff.mp (Nat.le_zero.mp hle))
  · have hlength := congrArg List.length heq
    rw [List.length_append, List.length_cons] at hlength
    omega

theorem parent_ne_nil {t : ZfsTree Data} (hpool : t.has (pool '/' target) = true)
    (hnonempty : t.has [] = false) (htarget : t.has target = false) : parent target ≠ [] := by
  intro hnil
  rcases parent_cases target with ⟨hnone, -⟩ | ⟨name, heq⟩
  · rw [pool_of_not_mem hnone, htarget] at hpool
    cases hpool
  · rw [hnil] at heq
    rw [heq] at hpool
    exact absurd (hnonempty.symm.trans hpool) Bool.false_ne_true

end Parents

/-! ## The transfer -/

section Transfer
variable (blank : Data) (target : Path) (o : Outcomes)

/-- What is done once the dataset is known that is sent. -/
def transfer (s : Store Data) (sendSource : Path) : Bool × Store Data :=
  let parents := createParents blank target o s.tree
  if parents.1 then
    let received := sendRecv target o parents.2 sendSource
    if received.1 then
      let tree := ensureReady target o received.2
      if reads o.verify (tree.has target) then
        let destroyed := exec o.destroy tree (destroy '/' tree s.row)
        updateRow o.update { s with tree := destroyed.2 } target
      else (false, { s with tree := tree })
    else (false, { s with tree := received.2 })
  else (false, { s with tree := parents.2 })

/-- The tree `t'` is `t`, perhaps with the parents of the target. -/
def Prepared (t t' : ZfsTree Data) : Prop :=
  t' = t ∨ create '/' blank t (parent target) = some t'

variable {blank target o} {s : Store Data} {t t' : ZfsTree Data}

theorem Prepared.extends (h : Prepared blank target t t') :
    Extends '/' (parent target) t t' := by
  rcases h with rfl | h
  · exact .refl _ _ _
  · exact extends_create h

theorem createParents_prepared : Prepared blank target t (createParents blank target o t).2 := by
  unfold createParents
  split_ifs
  · exact .inl rfl
  · cases hcreate : create '/' blank t (parent target) with
    | none => exact .inl (by cases o.createParent <;> rfl)
    | some t' =>
      cases hout : o.createParent with
      | fails => exact .inl rfl
      | works => exact .inr hcreate
      | late => exact .inr hcreate

/-- The parents are there, or their creation is tried. -/
theorem createParents_spec (hpool : t.has (pool '/' target) = true) (hnil : parent target ≠ []) :
    ((createParents blank target o t).1 = true ↔
      o.createParent = .works ∨ o.parentExists = true) ∧
    ((createParents blank target o t).2.has (parent target) = true ↔
      o.createParent ≠ .fails ∨ t.has (parent target) = true) := by
  obtain ⟨t', ht'⟩ : ∃ t', create '/' blank t (parent target) = some t' := by
    rw [create, pool_eq_of_below (parent_above hnil), if_pos hpool]
    exact ⟨_, rfl⟩
  have hthere := has_create ht'
  rw [createParents, if_neg hnil, ht']
  cases o.createParent <;> simp [exec, hthere]

theorem has_target_prepared (h : Prepared blank target t t') (hne : target ≠ []) :
    t'.has target = t.has target := by
  rw [Bool.eq_iff_iff]
  constructor
  · intro hhas
    obtain ⟨d, hd⟩ := get_of_has hhas
    rcases h.extends.new target d hd with hold | ⟨-, hbelow⟩
    · exact has_of_get hold
    · exact absurd hbelow (not_below_parent hne)
  · exact h.extends.has

/-- The dataset that arrives. -/
def arrival (target : Path) (x : Snapshot String Data) : Path × Dataset Char String Data :=
  (target, ⟨x.data, [x], none⟩)

theorem receive_prepared {x : Snapshot String Data} (h : Prepared blank target t t')
    (hne : target ≠ []) :
    receive t' (parent target) target x =
      if t.has target = false ∧ t'.has (parent target) = true then
        some (t' ++ [arrival target x])
      else none := by
  rw [receive, has_target_prepared h hne]
  cases t.has target <;> simp [arrival]

theorem exec_none (out : Outcome) : exec out t none = (false, t) := by cases out <;> rfl

theorem ne_nil_of_hasPool (hpool : s.tree.has (pool '/' target) = true)
    (hempty : s.tree.has [] = false) : target ≠ [] := by
  rintro rfl
  exact absurd (hempty.symm.trans hpool) Bool.false_ne_true

/-- Where the stream does not arrive, nothing more happens than the creation of the parents. -/
theorem transfer_of_not_arrives {source : Path} (hpool : s.tree.has (pool '/' target) = true)
    (hempty : s.tree.has [] = false) (h : ¬Arrives target o s) :
    ∃ t', Prepared blank target s.tree t' ∧
      transfer blank target o s source = (false, { s with tree := t' }) := by
  have hne := ne_nil_of_hasPool hpool hempty
  have hprep := @createParents_prepared Data blank target o s.tree
  refine ⟨_, hprep, ?_⟩
  have hrecv : (createParents blank target o s.tree).1 = true →
      sendRecv target o (createParents blank target o s.tree).2 source =
        (false, (createParents blank target o s.tree).2) := by
    intro hparents
    unfold sendRecv
    cases hsource : (KeyedList.get (createParents blank target o s.tree).2 source).bind
        fun d => d.find ready with
    | none => exact exec_none o.sendRecv
    | some x =>
      rw [Option.bind_some, receive_prepared hprep hne]
      split_ifs with hcond
      · cases hout : o.sendRecv with
        | fails => rfl
        | works | late =>
          have hspec := @createParents_spec Data blank target o s.tree hpool
            (parent_ne_nil hpool hempty hcond.1)
          have hnot : o.sendRecv ≠ .fails := by rw [hout]; decide
          exact absurd ⟨hcond.1, hspec.1.mp hparents, hspec.2.mp hcond.2, hnot⟩ h
      · exact exec_none o.sendRecv
  unfold transfer
  simp only
  by_cases hparents : (createParents blank target o s.tree).1 = true
  · rw [if_pos hparents, hrecv hparents]
    rfl
  · rw [if_neg hparents]

theorem get_arrival {x : Snapshot String Data} (h : t.has target = false) :
    KeyedList.get (t ++ [arrival target x]) target = some (arrival target x).2 := by
  rw [KeyedList.get_append, get_of_not_has h, arrival, KeyedList.get_cons, if_pos rfl]
  rfl

/-- The stream has brought the snapshot. -/
theorem ensureReady_arrival {x : Snapshot String Data} (h : t.has target = false)
    (hx : x.name = ready) :
    ensureReady target o (t ++ [arrival target x]) = t ++ [arrival target x] := by
  have hfind : (arrival target x).2.find ready = some x := by
    simp [arrival, Dataset.find, hx]
  unfold ensureReady
  split_ifs
  · rfl
  · rw [takeSnapshot, get_arrival h, Option.bind_some, hfind, Option.isSome_some, if_pos rfl,
      exec_none]

/-- Where it arrives, the target is there, and the original and the row are next. -/
theorem transfer_of_arrives {source : Path} {x : Snapshot String Data}
    (hpool : s.tree.has (pool '/' target) = true) (hempty : s.tree.has [] = false)
    (hsource : (s.tree.get source).bind (fun d => d.find ready) = some x)
    (h : Arrives target o s) :
    ∃ t', Prepared blank target s.tree t' ∧
      transfer blank target o s source =
        if o.sendRecv = .works ∧ o.verify = .works then
          updateRow o.update { s with tree := (exec o.destroy (t' ++ [arrival target x])
            (destroy '/' (t' ++ [arrival target x]) s.row)).2 } target
        else (false, { s with tree := t' ++ [arrival target x] }) := by
  have hne := ne_nil_of_hasPool hpool hempty
  have hprep := @createParents_prepared Data blank target o s.tree
  have hspec := @createParents_spec Data blank target o s.tree hpool
    (parent_ne_nil hpool hempty h.1)
  refine ⟨_, hprep, ?_⟩
  unfold transfer
  simp only
  rw [if_pos (hspec.1.mpr h.2.1)]
  have hparent := hspec.2.mpr h.2.2.1
  generalize (createParents blank target o s.tree).2 = t' at hprep hparent ⊢
  obtain ⟨d, hd, hfind⟩ := Option.bind_eq_some_iff.mp hsource
  have hnew : t'.has target = false := (has_target_prepared hprep hne).trans h.1
  have hrecv : sendRecv target o t' source =
      (decide (o.sendRecv = .works), t' ++ [arrival target x]) := by
    rw [sendRecv, hprep.extends.old source d hd, Option.bind_some, hfind, Option.bind_some,
      receive_prepared hprep hne, if_pos ⟨h.1, hparent⟩]
    cases hout : o.sendRecv with
    | works | late => rfl
    | fails => exact absurd hout h.2.2.2
  have hhas : KeyedList.has (t' ++ [arrival target x]) target = true :=
    has_of_get (get_arrival hnew)
  rw [hrecv]
  by_cases hworks : o.sendRecv = .works
  · have hverify : reads o.verify true = true ↔ o.verify = .works := by
      cases o.verify <;> simp [reads]
    rw [if_pos (by simpa using hworks), ensureReady_arrival hnew (find_eq_some hfind).2, hhas]
    by_cases hv : o.verify = .works
    · rw [if_pos (hverify.mpr hv), if_pos ⟨hworks, hv⟩]
    · rw [if_neg (fun h => hv (hverify.mp h)), if_neg (fun h => hv h.2)]
  · rw [if_neg (by simpa using hworks), if_neg (fun h => hworks h.1)]

end Transfer

/-! ## The two kinds of move -/

section Kinds
variable {blank D : Data} {machines : Path → Prop} {target : Path} {forcePromote : Bool}
variable {o : Outcomes} {s : Store Data} {t : ZfsTree Data} {c : Path}

theorem reads_true (out : Outcome) : reads out true = true ↔ out = .works := by
  cases out <;> simp [reads]

theorem hasSnapshot_row (hs : Stored D machines s) : hasSnapshot s.tree s.row ready = true := by
  obtain ⟨d, hd, hdata⟩ := hs.template
  rw [hasSnapshot, hd, Option.bind_some]
  cases hfind : d.find ready with
  | some x => rfl
  | none =>
    rw [hfind] at hdata
    cases hdata

theorem has_row (hs : Stored D machines s) : s.tree.has s.row = true := by
  obtain ⟨d, hd, -⟩ := hs.template
  exact has_of_get hd

theorem executeCrossPoolMove_eq (hs : Stored D machines s) :
    executeCrossPoolMove blank target forcePromote o s =
      if o.snapCheck = .works then
        match seenClones o s with
        | [] => transfer blank target o s s.row
        | c :: _ =>
          if forcePromote then
            match promote s.tree c, o.promote with
            | some t, .works => transfer blank target o { s with tree := t } c
            | some t, .late => (false, { s with tree := t })
            | _, _ => (false, s)
          else (false, s)
      else (false, s) := by
  have hparse : parseDependentClones
      (if o.getClones = .fails then [] else clonesText (clones s.tree s.row ready)) =
        seenClones o s := by
    rw [seenClones]
    split_ifs
    · rfl
    · exact parse_clonesText hs.names
  unfold executeCrossPoolMove resolveCloneDependencies
  rw [hasSnapshot_row hs]
  simp only [reads_true, hparse]
  by_cases hsnap : o.snapCheck = .works
  · rw [if_pos hsnap, if_pos hsnap]
    cases seenClones o s with
    | nil => rfl
    | cons c rest =>
      cases forcePromote with
      | false => rfl
      | true =>
        simp only [if_true]
        cases promote s.tree c with
        | none =>
          rw [exec_none]
          rfl
        | some t => cases o.promote <;> rfl
  · rw [if_neg hsnap, if_neg hsnap]

theorem target_ne_nil (hs : Stored D machines s) (hpool : s.tree.has (pool '/' target) = true) :
    target ≠ [] := by
  rintro rfl
  exact absurd (hs.wellFormed.nonempty.symm.trans hpool) Bool.false_ne_true

theorem executeSamePoolMove_eq (hs : Stored D machines s)
    (hpool : s.tree.has (pool '/' target) = true) :
    executeSamePoolMove blank target o s =
      match rename '/' blank s.tree (parent target) s.row target, o.rename with
      | some t, .works =>
        if o.verify = .works then updateRow o.update { s with tree := t } target
        else (false, { s with tree := t })
      | some t, .late => (false, { s with tree := t })
      | _, _ => (false, s) := by
  unfold executeSamePoolMove
  cases hren : rename '/' blank s.tree (parent target) s.row target with
  | none =>
    simp only
    rw [exec_none]
    rfl
  | some t =>
    have hne := target_ne_nil hs hpool
    obtain ⟨d, hd, -⟩ := hs.template
    obtain ⟨d', hd', -⟩ := get_rename hs.wellFormed (not_below_parent hne) hren hd
    have hhas : t.has target = true := by
      rw [relocate, if_pos (.refl s.row), List.drop_length, List.append_nil] at hd'
      exact has_of_get hd'
    cases o.rename with
    | works =>
      simp only [exec, if_true, hhas, reads_true]
    | late => rfl
    | fails => rfl

/-! ## When a move goes through -/

theorem resolved_has (h : s.tree.has target = true) :
    (resolveCloneDependencies forcePromote o s).2.has target = true := by
  unfold resolveCloneDependencies
  by_cases hsnap : reads o.snapCheck (hasSnapshot s.tree s.row ready) = true
  · rw [if_pos hsnap]
    simp only
    generalize parseDependentClones _ = names
    cases names with
    | nil => exact h
    | cons c rest =>
      cases forcePromote with
      | false => exact h
      | true =>
        change (exec o.promote s.tree (promote s.tree c)).2.has target = true
        cases hpromote : promote s.tree c with
        | none => rwa [exec_none]
        | some t =>
          obtain ⟨_, _, _, hpromotion⟩ := promotion_of_eq_some hpromote
          have ht : t.has target = true := (hpromotion.has target).trans h
          cases o.promote <;> assumption
  · rwa [if_neg hsnap]

/-- Nothing is moved onto a dataset that is there. -/
theorem fails_of_has_target (h : s.tree.has target = true) :
    (executeTemplateMoveTask blank target forcePromote o s).1 = false := by
  unfold executeTemplateMoveTask
  split_ifs
  · have hnone : rename '/' blank s.tree (parent target) s.row target = none := by
      rw [rename, if_neg]
      rintro ⟨-, hno, -⟩
      exact absurd (hno.symm.trans h) Bool.false_ne_true
    rw [executeSamePoolMove, hnone]
    simp only
    rw [exec_none]
    rfl
  · have hresolved := @resolved_has Data target forcePromote o s h
    unfold executeCrossPoolMove
    simp only
    split
    · rfl
    case h_2 source _ =>
      have hthere := (@createParents_prepared Data blank target o
        (resolveCloneDependencies forcePromote o s).2).extends.has hresolved
      split_ifs with hparents hrecv
      · exfalso
        have hnone : ∀ x : Snapshot String Data, receive (createParents blank target o
            (resolveCloneDependencies forcePromote o s).2).2 (parent target) target x = none := by
          intro x
          rw [receive, hthere]
          rfl
        simp [sendRecv, hnone, exec_none] at hrecv
      all_goals rfl
  · rfl

/-- What the promotion of a clone makes of it and of the template. -/
theorem promotion_of_clone (hs : Stored D machines s) (hc : c ∈ clones s.tree s.row ready)
    (h : promote s.tree c = some t) :
    c ≠ s.row ∧ ∃ parent, Promotion s.tree t c s.row ready parent := by
  obtain ⟨d, hmem, horigin⟩ := mem_clones hc
  have hget := KeyedList.get_of_mem hs.wellFormed.nodup hmem
  obtain ⟨p, name, parent, hpromotion⟩ := promotion_of_eq_some h
  obtain ⟨d', hd', horigin'⟩ := hpromotion.clone
  rw [hget] at hd'
  cases hd'
  rw [horigin] at horigin'
  cases horigin'
  refine ⟨?_, parent, hpromotion⟩
  rintro rfl
  exact hs.wellFormed.notSelf s.row d ready hget horigin

/-- The template's snapshot, with its data, in the dataset `p`. -/
def TemplateAt (D : Data) (t : ZfsTree Data) (p : Path) : Prop :=
  ∃ d x, t.get p = some d ∧ x ∈ d.snapshots ∧ x.name = ready ∧ x.data = D

theorem source_template (hs : Stored D machines s) :
    ∃ x, (s.tree.get s.row).bind (fun d => d.find ready) = some x ∧ x.data = D := by
  obtain ⟨d, hd, hdata⟩ := hs.template
  obtain ⟨x, hx, hxD⟩ := Option.map_eq_some_iff.mp hdata
  exact ⟨x, by rw [hd, Option.bind_some, hx], hxD⟩

theorem source_promoted (hs : Stored D machines s) {parent : Dataset Char String Data}
    (h : Promotion s.tree t c s.row ready parent) :
    ∃ x, (t.get c).bind (fun d => d.find ready) = some x ∧ x.data = D := by
  obtain ⟨x, hx, hxD⟩ := source_template hs
  rw [h.source, Option.bind_some] at hx
  obtain ⟨d, hd, -⟩ := h.clone
  refine ⟨x, ?_, hxD⟩
  rw [h.get, hd, Option.map_some, Option.bind_some, promoted]
  simp only [if_true]
  exact find_moved hx d.snapshots

/-- The row's dataset has lost the snapshot to the promoted clone. -/
theorem not_templateAt_promoted (hs : Stored D machines s) (hc : c ≠ s.row)
    {parent : Dataset Char String Data} (h : Promotion s.tree t c s.row ready parent) :
    ¬TemplateAt D t s.row := by
  rintro ⟨d, x, hd, hx, hname, -⟩
  obtain ⟨y, hy, -⟩ := source_template hs
  rw [h.source, Option.bind_some] at hy
  rw [h.get, h.source, Option.map_some, promoted] at hd
  simp only [if_neg (Ne.symm hc), if_true, Option.some.injEq] at hd
  subst hd
  have hleft := find_left (hs.wellFormed.named s.row parent h.source)
    ⟨y, (find_eq_some hy).1, (find_eq_some hy).2⟩
  exact List.find?_eq_none.mp hleft x hx (by simpa using hname)

theorem Stored.prepared (hs : Stored D machines s) (h : Prepared blank target s.tree t) :
    Stored D machines { s with tree := t } := by
  rcases h with rfl | h
  · exact hs
  · constructor
    case wellFormed => exact hs.wellFormed.create h
    case names =>
      intro c hc
      apply hs.names
      rwa [clones_create h] at hc
    case template =>
      obtain ⟨d, hd, hdata⟩ := hs.template
      exact ⟨d, (extends_create h).old _ d hd, hdata⟩
    case machines => exact hs.machines

theorem clones_prepared (h : Prepared blank target s.tree t) :
    clones t s.row ready = clones s.tree s.row ready := by
  rcases h with rfl | h
  · rfl
  · exact clones_create h s.row ready

theorem Possible.prepared (hs : Stored D machines s) (hp : Possible target forcePromote s)
    (h : Prepared blank target s.tree t) :
    Possible target forcePromote { s with tree := t } := by
  obtain ⟨hpool, htarget, hkind⟩ := hp
  refine ⟨h.extends.has hpool, (has_target_prepared h (target_ne_nil hs hpool)).trans htarget, ?_⟩
  by_cases hsame : pool '/' s.row = pool '/' target
  · rw [if_pos hsame] at hkind ⊢
    exact hkind
  · rw [if_neg hsame] at hkind ⊢
    rw [clones_prepared h]
    cases hclones : clones s.tree s.row ready with
    | nil => trivial
    | cons c rest =>
      rw [hclones] at hkind
      exact ⟨hkind.1, h.extends.isSome_promote hkind.2⟩

theorem transfer_allWork {source : Path} (hpool : s.tree.has (pool '/' target) = true)
    (hempty : s.tree.has [] = false)
    (hsource : ∃ x, (s.tree.get source).bind (fun d => d.find ready) = some x ∧ x.data = D) :
    (transfer blank target allWork s source).1 = true ↔ s.tree.has target = false := by
  obtain ⟨x, hx, -⟩ := hsource
  have harrives : Arrives target allWork s ↔ s.tree.has target = false := by
    simp [Arrives, allWork]
  rw [← harrives]
  by_cases h : Arrives target allWork s
  · obtain ⟨t', -, htransfer⟩ := @transfer_of_arrives Data blank target allWork s source x
      hpool hempty hx h
    rw [htransfer, if_pos ⟨rfl, rfl⟩]
    exact ⟨fun _ => h, fun _ => rfl⟩
  · obtain ⟨t', -, htransfer⟩ := @transfer_of_not_arrives Data blank target allWork s source
      hpool hempty h
    rw [htransfer]
    simp [h]

theorem rename_isSome (hs : Stored D machines s) (hsame : pool '/' s.row = pool '/' target) :
    (rename '/' blank s.tree (parent target) s.row target).isSome = true ↔
      s.tree.has target = false ∧ ¬AtOrBelow '/' s.row target := by
  rw [rename]
  split_ifs with h
  · simp only [Option.isSome_some, true_iff]
    exact ⟨h.2.1, h.2.2.1⟩
  · simp only [Option.isSome_none, Bool.false_eq_true, false_iff]
    exact fun hcond => h ⟨has_row hs, hcond.1, hcond.2, hsame⟩

/-- When every command works, the move goes through just where it is possible. -/
theorem works_iff (hs : Stored D machines s) :
    (executeTemplateMoveTask blank target forcePromote allWork s).1 = true ↔
      Possible target forcePromote s := by
  unfold executeTemplateMoveTask Possible
  by_cases hpool : s.tree.has (pool '/' target) = true
  · simp only [hpool, reads_true, true_and]
    rw [if_pos (show allWork.poolCheck = .works from rfl)]
    by_cases hsame : pool '/' s.row = pool '/' target
    · rw [if_pos hsame, if_pos hsame, executeSamePoolMove_eq hs hpool,
        ← @rename_isSome Data blank _ _ _ _ hs hsame]
      cases rename '/' blank s.tree (parent target) s.row target <;>
        simp [allWork, updateRow]
    · rw [if_neg hsame, if_neg hsame, executeCrossPoolMove_eq hs,
        if_pos (show allWork.snapCheck = .works from rfl)]
      have hseen : seenClones allWork s = clones s.tree s.row ready := rfl
      rw [hseen]
      cases hclones : clones s.tree s.row ready with
      | nil =>
        simp only [and_true]
        exact transfer_allWork hpool hs.wellFormed.nonempty (source_template hs)
      | cons c rest =>
        simp only
        cases hpromote : promote s.tree c with
        | none => cases forcePromote <;> simp
        | some t =>
          have hc : c ∈ clones s.tree s.row ready := by rw [hclones]; exact List.mem_cons_self
          obtain ⟨-, parent, hpromotion⟩ := promotion_of_clone hs hc hpromote
          have htransfer := @transfer_allWork Data blank D target { s with tree := t } c
            ((hpromotion.has _).trans hpool) ((hpromotion.has _).trans hs.wellFormed.nonempty)
            (source_promoted hs hpromotion)
          cases forcePromote with
          | false => simp
          | true =>
            rw [hpromotion.has] at htransfer
            simp only [if_true, Option.isSome_some, and_true, true_and]
            exact htransfer
  · have hno : reads allWork.poolCheck (s.tree.has (pool '/' target)) = true → False := by
      simp [reads, hpool]
    rw [if_neg hno]
    simp [hpool]

/-! ## What a move leaves -/

theorem nothingLost_prepared (hs : Stored D machines s) (h : Prepared blank target s.tree t) :
    NothingLost blank D machines target forcePromote s (false, { s with tree := t }) := by
  constructor
  case template =>
    obtain ⟨x, hx, hdata⟩ := source_template hs
    obtain ⟨d, hd, hfind⟩ := Option.bind_eq_some_iff.mp hx
    exact ⟨d, x, h.extends.old _ d hd, (find_eq_some hfind).1, (find_eq_some hfind).2, hdata⟩
  case machines => exact fun m d _ hd => ⟨d, h.extends.old m d hd, .refl d⟩
  case others => exact fun p d _ hd => ⟨d, .refl d, .inl (h.extends.old p d hd)⟩
  case retry =>
    intro _ hworks
    exact (works_iff (hs.prepared h)).mpr (((works_iff hs).mp hworks).prepared hs h)

/-- What is kept of the machines and of the other datasets. -/
def Kept (machines : Path → Prop) (target : Path) (s : Store Data) (t : ZfsTree Data) : Prop :=
  (∀ m d, machines m → s.tree.get m = some d → ∃ d', t.get m = some d' ∧ Holds d d') ∧
    ∀ p d, p ≠ s.row → s.tree.get p = some d → ∃ d', Holds d d' ∧ (t.get p = some d' ∨
      AtOrBelow '/' s.row p ∧ t.get (relocate '/' s.row target p) = some d')

/-- Once something is at the target, no move goes through. -/
theorem nothingLost_iff {r : Bool × Store Data} (hs : Stored D machines s)
    (h : r.2.tree.has target = true) :
    NothingLost blank D machines target forcePromote s r ↔
      TemplateAt D r.2.tree r.2.row ∧ Kept machines target s r.2.tree ∧
        (r.1 = false → ¬Possible target forcePromote s) := by
  constructor
  · intro hlost
    refine ⟨hlost.template, ⟨hlost.machines, hlost.others⟩, fun hfailed hpossible => ?_⟩
    have := hlost.retry hfailed ((works_iff hs).mpr hpossible)
    rw [fails_of_has_target h] at this
    cases this
  · rintro ⟨htemplate, hkept, hretry⟩
    exact ⟨htemplate, hkept.1, hkept.2,
      fun hfailed hworks => absurd ((works_iff hs).mp hworks) (hretry hfailed)⟩

theorem templateAt_renamed (hs : Stored D machines s) (hne : target ≠ [])
    (h : rename '/' blank s.tree (parent target) s.row target = some t) :
    TemplateAt D t target := by
  obtain ⟨x, hx, hdata⟩ := source_template hs
  obtain ⟨d, hd, hfind⟩ := Option.bind_eq_some_iff.mp hx
  obtain ⟨d', hd', hholds⟩ := get_rename hs.wellFormed (not_below_parent hne) h hd
  rw [relocate, if_pos (.refl s.row), List.drop_length, List.append_nil] at hd'
  exact ⟨d', x, hd', hholds.2 x (find_eq_some hfind).1, (find_eq_some hfind).2, hdata⟩

theorem kept_renamed (hs : Stored D machines s) (hne : target ≠ [])
    (h : rename '/' blank s.tree (parent target) s.row target = some t) :
    Kept machines target s t ↔ NoMachineBelow machines s := by
  have hnew := fun p d (hd : s.tree.get p = some d) =>
    get_rename hs.wellFormed (not_below_parent hne) h hd
  constructor
  · rintro ⟨hmachines, -⟩ m hm hhas hin
    obtain ⟨d, hd⟩ := get_of_has hhas
    obtain ⟨d', hd', -⟩ := hmachines m d hm hd
    rw [get_rename_old hs.wellFormed h hin] at hd'
    cases hd'
  · intro hnone
    constructor
    · intro m d hm hd
      have := hnew m d hd
      rwa [relocate, if_neg (hnone m hm (has_of_get hd))] at this
    · intro p d _ hd
      obtain ⟨d', hd', hholds⟩ := hnew p d hd
      refine ⟨d', hholds, ?_⟩
      by_cases hin : AtOrBelow '/' s.row p
      · exact .inr ⟨hin, hd'⟩
      · rw [relocate, if_neg hin] at hd'
        exact .inl hd'

theorem nothingLost_samePool (hs : Stored D machines s)
    (hpool : s.tree.has (pool '/' target) = true) (hsame : pool '/' s.row = pool '/' target) :
    NothingLost blank D machines target forcePromote s (executeSamePoolMove blank target o s) ↔
      (s.tree.has target = false → ¬AtOrBelow '/' s.row target → o.rename ≠ .fails →
        o.rename = .works ∧ o.verify = .works ∧ o.update = .works ∧ NoMachineBelow machines s) := by
  have hstay := @nothingLost_prepared Data blank D machines target forcePromote s s.tree hs (.inl rfl)
  have hsome := @rename_isSome Data blank _ _ _ _ hs hsame
  rw [executeSamePoolMove_eq hs hpool]
  cases hren : rename '/' blank s.tree (parent target) s.row target with
  | none =>
    rw [hren] at hsome
    refine ⟨fun _ htarget hbelow => ?_, fun _ => hstay⟩
    exact absurd (hsome.mpr ⟨htarget, hbelow⟩) Bool.false_ne_true
  | some t =>
    rw [hren] at hsome
    obtain ⟨htarget, hbelow⟩ := hsome.mp rfl
    have hne := target_ne_nil hs hpool
    have hpossible : Possible target forcePromote s := by
      refine ⟨hpool, htarget, ?_⟩
      rwa [if_pos hsame]
    have htemplate := templateAt_renamed hs hne hren
    have hkept := kept_renamed hs hne hren
    have hthere : t.has target = true := by
      obtain ⟨d, _, hd, -⟩ := htemplate
      exact has_of_get hd
    -- behind the rename, the row must follow
    have hlost : ∀ b, ¬NothingLost blank D machines target forcePromote s
        (b, { s with tree := t }) := by
      rintro b ⟨⟨d, _, hget, -⟩, -⟩
      rw [get_rename_old hs.wellFormed hren (.refl s.row)] at hget
      cases hget
    cases hout : o.rename with
    | fails => exact ⟨fun _ _ _ h => absurd rfl h, fun _ => hstay⟩
    | late =>
      have hran : Outcome.late ≠ .fails := by decide
      refine ⟨fun h => absurd h (hlost false), fun h => ?_⟩
      exact absurd (h htarget hbelow hran).1 (by decide)
    | works =>
      have hran : Outcome.works ≠ .fails := by decide
      simp only
      by_cases hverify : o.verify = .works
      · rw [if_pos hverify]
        cases hupdate : o.update with
        | works =>
          rw [updateRow, nothingLost_iff hs hthere]
          constructor
          · exact fun h _ _ _ => ⟨trivial, hverify, rfl, hkept.mp h.2.1⟩
          · exact fun h => ⟨htemplate, hkept.mpr (h htarget hbelow hran).2.2.2, by rintro ⟨⟩⟩
        | late =>
          rw [updateRow, nothingLost_iff hs hthere]
          refine ⟨fun h => absurd hpossible (h.2.2 rfl), fun h => ?_⟩
          exact absurd (h htarget hbelow hran).2.2.1 (by decide)
        | fails =>
          refine ⟨fun h => absurd h (hlost false), fun h => ?_⟩
          exact absurd (h htarget hbelow hran).2.2.1 (by decide)
      · rw [if_neg hverify]
        refine ⟨fun h => absurd h (hlost false), fun h => ?_⟩
        exact absurd (h htarget hbelow hran).2.1 hverify

section Arrived
variable {u : ZfsTree Data}

/-- The tree behind the attempt to destroy the original in `u`, where the stream has arrived. -/
theorem get_destroyed (hrow : u.has s.row = true)
    (hdetached : Detached '/' u s.row ↔ Detached '/' t s.row) :
    (Destroyed o s t → ∀ p, KeyedList.get (exec o.destroy u (destroy '/' u s.row)).2 p =
      if AtOrBelow '/' s.row p then none else u.get p) ∧
    (¬Destroyed o s t → (exec o.destroy u (destroy '/' u s.row)).2 = u) := by
  have hsome := @DatasetTree.isSome_destroy _ _ _ _ '/' _ _ hrow
  rw [hdetached] at hsome
  cases hdestroy : destroy '/' u s.row with
  | none =>
    rw [hdestroy] at hsome
    exact ⟨fun h => absurd (hsome.mpr h.2) Bool.false_ne_true, fun _ => by rw [exec_none]⟩
  | some u' =>
    rw [hdestroy] at hsome
    have hget := get_destroy hdestroy
    have hout := hsome.mp rfl
    cases hdes : o.destroy with
    | fails => exact ⟨fun h => absurd hdes h.1, fun _ => rfl⟩
    | works => exact ⟨fun _ => hget, fun h => absurd ⟨by rw [hdes]; nofun, hout⟩ h⟩
    | late => exact ⟨fun _ => hget, fun h => absurd ⟨by rw [hdes]; nofun, hout⟩ h⟩

/-- The destruction keeps everything else just when there is nothing below the template's dataset. -/
theorem kept_destroyed {v : ZfsTree Data} (hs : Stored D machines s)
    (hkeep : ∀ p d, p ≠ s.row → s.tree.get p = some d → ∃ d', u.get p = some d' ∧ Holds d d')
    (hbelow : ∀ p, u.has p = true → AtOrBelow '/' target p → p = target)
    (hgone : Destroyed o s t → ∀ p, v.get p = if AtOrBelow '/' s.row p then none else u.get p)
    (hstays : ¬Destroyed o s t → v = u) :
    Kept machines target s v ↔ (Destroyed o s t → NothingBelow s) := by
  by_cases hdes : Destroyed o s t
  · have hv := hgone hdes
    constructor
    · rintro ⟨-, hothers⟩ - p hp hin
      by_contra hne
      obtain ⟨d, hd⟩ := get_of_has hp
      obtain ⟨d', -, hstill | ⟨-, hmoved⟩⟩ := hothers p d hne hd
      · rw [hv, if_pos hin] at hstill
        cases hstill
      · rw [hv] at hmoved
        split_ifs at hmoved
        have htarget := hbelow _ (has_of_get hmoved) (relocate_below hin target)
        rw [relocate, if_pos hin] at htarget
        have hdrop : p.drop s.row.length = [] := by simpa using htarget
        apply hne
        rw [hin.eq_append, hdrop, List.append_nil]
    · intro hnone
      have hothers : ∀ p d, p ≠ s.row → s.tree.get p = some d →
          ∃ d', v.get p = some d' ∧ Holds d d' := by
        intro p d hne hd
        have hout : ¬AtOrBelow '/' s.row p := fun hin => hne (hnone hdes p (has_of_get hd) hin)
        rw [hv, if_neg hout]
        exact hkeep p d hne hd
      constructor
      · intro m d hm hd
        exact hothers m d (fun heq => hs.machines (heq ▸ hm)) hd
      · intro p d hne hd
        obtain ⟨d', hd', hholds⟩ := hothers p d hne hd
        exact ⟨d', hholds, .inl hd'⟩
  · rw [hstays hdes]
    refine ⟨fun _ h => absurd h hdes, fun _ => ⟨fun m d hm hd => ?_, fun p d hne hd => ?_⟩⟩
    · exact hkeep m d (fun heq => hs.machines (heq ▸ hm)) hd
    · obtain ⟨d', hd', hholds⟩ := hkeep p d hne hd
      exact ⟨d', hholds, .inl hd'⟩

/-- A stream that arrives, from the tree `t` in which the dataset `source` has the snapshot. -/
theorem nothingLost_arrived {source : Path} {x : Snapshot String Data}
    (hs : Stored D machines s) (hpool : s.tree.has (pool '/' target) = true)
    (hcross : pool '/' s.row ≠ pool '/' target) (harrives : Arrives target o s)
    (hhas : ∀ p, t.has p = s.tree.has p)
    (hkeep : ∀ p d, p ≠ s.row → s.tree.get p = some d → ∃ d', t.get p = some d' ∧ Holds d d')
    (hx : (t.get source).bind (fun d => d.find ready) = some x) (hdata : x.data = D)
    (hrow : ¬Possible target forcePromote s → TemplateAt D t s.row) :
    NothingLost blank D machines target forcePromote s
        (transfer blank target o { s with tree := t } source) ↔
      EndsWell target forcePromote o s t := by
  have hpool' : t.has (pool '/' target) = true := (hhas _).trans hpool
  have hempty : t.has [] = false := (hhas _).trans hs.wellFormed.nonempty
  have htarget : t.has target = false := (hhas _).trans harrives.1
  have harrives' : Arrives target o { s with tree := t } := by
    refine ⟨htarget, harrives.2.1, harrives.2.2.1.imp_right fun h => (hhas _).trans h, ?_⟩
    exact harrives.2.2.2
  obtain ⟨t', hprep, htransfer⟩ := @transfer_of_arrives Data blank target o { s with tree := t }
    source x hpool' hempty hx harrives'
  rw [htransfer]
  have hext : Extends '/' target t (t' ++ [arrival target x]) :=
    (hprep.extends.mono (parent_above (parent_ne_nil hpool' hempty htarget))).trans
      (extends_append (.refl target) rfl)
  have hnew : t'.has target = false :=
    (has_target_prepared hprep (target_ne_nil hs hpool)).trans htarget
  have harrival := get_arrival (x := x) hnew
  generalize t' ++ [arrival target x] = u at hext harrival ⊢
  have hname := (find_eq_some (Option.bind_eq_some_iff.mp hx).choose_spec.2).2
  have hrowu : u.has s.row = true := hext.has ((hhas _).trans (has_row hs))
  have hkeepu : ∀ p d, p ≠ s.row → s.tree.get p = some d →
      ∃ d', u.get p = some d' ∧ Holds d d' := by
    intro p d hne hd
    obtain ⟨d', hd', hholds⟩ := hkeep p d hne hd
    exact ⟨d', hext.old p d' hd', hholds⟩
  have hbelow : ∀ p, u.has p = true → AtOrBelow '/' target p → p = target := by
    intro p hp hin
    obtain ⟨d, hd⟩ := get_of_has hp
    rcases hext.new p d hd with hold | ⟨-, habove⟩
    · have := hs.wellFormed.rooted p ((hhas p).symm.trans (has_of_get hold)) target hin
      rw [harrives.1] at this
      cases this
    · exact habove.antisymm hin
  have hrowout : ¬AtOrBelow '/' s.row target := fun h => hcross (pool_eq_of_below h)
  have hrowat : ¬Possible target forcePromote s → TemplateAt D u s.row := by
    intro h
    obtain ⟨d, y, hd, hy⟩ := hrow h
    exact ⟨d, y, hext.old _ d hd, hy⟩
  obtain ⟨hgone, hstays⟩ := get_destroyed (o := o) (t := t) hrowu hext.detached
  have hkept := @kept_destroyed Data D machines target o s t u
    (exec o.destroy u (destroy '/' u s.row)).2 hs hkeepu hbelow hgone hstays
  have hkeptu : Kept machines target s u := by
    refine ⟨fun m d hm hd => hkeepu m d (fun heq => hs.machines (heq ▸ hm)) hd, fun p d hne hd => ?_⟩
    obtain ⟨d', hd', hholds⟩ := hkeepu p d hne hd
    exact ⟨d', hholds, .inl hd'⟩
  generalize (exec o.destroy u (destroy '/' u s.row)).2 = v at hgone hstays hkept ⊢
  have hv : v.get target = some (arrival target x).2 := by
    by_cases hdes : Destroyed o s t
    · rw [hgone hdes, if_neg hrowout, harrival]
    · rw [hstays hdes, harrival]
  have htemplate : TemplateAt D v target :=
    ⟨_, x, hv, List.mem_singleton_self x, hname, hdata⟩
  unfold EndsWell
  by_cases hworks : o.sendRecv = .works ∧ o.verify = .works
  · rw [if_pos hworks, if_pos hworks]
    cases hupdate : o.update with
    | works =>
      rw [updateRow, nothingLost_iff hs (has_of_get hv)]
      exact ⟨fun h => hkept.mp h.2.1, fun h => ⟨htemplate, hkept.mpr h, nofun⟩⟩
    | late =>
      rw [updateRow, nothingLost_iff hs (has_of_get hv)]
      constructor
      · exact fun h => ⟨hkept.mp h.2.1, h.2.2 rfl⟩
      · exact fun h => ⟨htemplate, hkept.mpr h.1, fun _ => h.2⟩
    | fails =>
      rw [updateRow, nothingLost_iff hs (has_of_get hv)]
      constructor
      · rintro ⟨⟨d, _, hd, -⟩, -, hretry⟩
        refine ⟨fun hdes => ?_, hretry rfl⟩
        rw [hgone hdes, if_pos (.refl s.row)] at hd
        cases hd
      · rintro ⟨hdes, hretry⟩
        rw [hstays hdes]
        exact ⟨hrowat hretry, hkeptu, fun _ => hretry⟩
  · rw [if_neg hworks, if_neg hworks, nothingLost_iff hs (has_of_get harrival)]
    exact ⟨fun h => h.2.2 rfl, fun h => ⟨hrowat h, hkeptu, fun _ => h⟩⟩

end Arrived

/-! ## When nothing is lost -/

theorem nothingLost_crossPool (hs : Stored D machines s)
    (hpool : s.tree.has (pool '/' target) = true) (hcross : pool '/' s.row ≠ pool '/' target) :
    NothingLost blank D machines target forcePromote s
        (executeCrossPoolMove blank target forcePromote o s) ↔
      (o.snapCheck = .works →
        match seenClones o s with
        | [] => Arrives target o s → EndsWell target forcePromote o s s.tree
        | c :: _ => forcePromote = true → ∀ t ∈ promote s.tree c, o.promote ≠ .fails →
            o.promote = .works ∧ Arrives target o s ∧ EndsWell target forcePromote o s t) := by
  have hstay := @nothingLost_prepared Data blank D machines target forcePromote s s.tree hs (.inl rfl)
  obtain ⟨x, hx, hdata⟩ := source_template hs
  rw [executeCrossPoolMove_eq hs]
  by_cases hsnap : o.snapCheck = .works
  · rw [if_pos hsnap]
    simp only [hsnap, true_implies]
    cases hseen : seenClones o s with
    | nil =>
      simp only
      by_cases harrives : Arrives target o s
      · have hat : TemplateAt D s.tree s.row := by
          obtain ⟨d, hd, hfind⟩ := Option.bind_eq_some_iff.mp hx
          exact ⟨d, x, hd, (find_eq_some hfind).1, (find_eq_some hfind).2, hdata⟩
        have harrived := @nothingLost_arrived Data blank D machines target forcePromote o s _ _ _ hs
          hpool hcross harrives (fun _ => rfl) (fun p d _ hd => ⟨d, hd, .refl d⟩) hx hdata (fun _ => hat)
        simp only [harrives, true_implies]
        exact harrived
      · obtain ⟨t', hprep, htransfer⟩ := @transfer_of_not_arrives Data blank target o s s.row
          hpool hs.wellFormed.nonempty harrives
        rw [htransfer]
        exact ⟨fun _ h => absurd h harrives, fun _ => nothingLost_prepared hs hprep⟩
    | cons c rest =>
      simp only
      have hclones : clones s.tree s.row ready = c :: rest := by
        rw [seenClones] at hseen
        split_ifs at hseen
        exact hseen
      cases forcePromote with
      | false => exact ⟨fun _ hforce => absurd hforce Bool.false_ne_true, fun _ => hstay⟩
      | true =>
        cases hpromote : promote s.tree c with
        | none => exact ⟨fun _ _ t ht => absurd ht (Option.not_mem_none t), fun _ => hstay⟩
        | some t =>
          obtain ⟨hne, parent, hpromotion⟩ := promotion_of_clone hs
            (by rw [hclones]; exact List.mem_cons_self) hpromote
          have hlost := not_templateAt_promoted hs hne hpromotion
          cases hout : o.promote with
          | fails => exact ⟨fun _ _ _ _ h => absurd rfl h, fun _ => hstay⟩
          | late =>
            refine ⟨fun h => absurd h.template hlost, fun h => ?_⟩
            exact absurd (h rfl t rfl (by decide)).1 (by decide)
          | works =>
            simp only [if_true]
            by_cases harrives : Arrives target o s
            · have hpossible : Possible target true s := by
                refine ⟨hpool, harrives.1, ?_⟩
                rw [if_neg hcross, hclones]
                exact ⟨rfl, by rw [hpromote]; rfl⟩
              obtain ⟨y, hy, hydata⟩ := source_promoted hs hpromotion
              have harrived := @nothingLost_arrived Data blank D machines target true o s _ _ _ hs
                hpool hcross harrives hpromotion.has (fun p d hp hd => hpromotion.keeps hp hd) hy hydata
                (fun h => absurd hpossible h)
              constructor
              · rintro h - t' ht' -
                cases ht'
                exact ⟨trivial, harrives, harrived.mp h⟩
              · exact fun h => harrived.mpr (h trivial t rfl (by decide)).2.2
            · have harrives' : ¬Arrives target o { s with tree := t } := by
                rintro ⟨htarget, hcreate, hparent, hsend⟩
                rw [hpromotion.has] at htarget hparent
                exact harrives ⟨htarget, hcreate, hparent, hsend⟩
              obtain ⟨t', hprep, htransfer⟩ := @transfer_of_not_arrives Data blank target o
                { s with tree := t } c ((hpromotion.has _).trans hpool)
                ((hpromotion.has _).trans hs.wellFormed.nonempty) harrives'
              rw [htransfer]
              refine ⟨fun h => ?_, fun h => absurd (h trivial t rfl (by decide)).2.1 harrives⟩
              -- the parents of the target do not bring the snapshot back
              obtain ⟨d, z, hd, hz⟩ := h.template
              obtain ⟨d', hd'⟩ := get_of_has ((hpromotion.has s.row).trans (has_row hs))
              have heq := hprep.extends.old _ d' hd'
              rw [hd] at heq
              cases heq
              exact absurd ⟨d, z, hd', hz⟩ hlost
  · rw [if_neg hsnap]
    exact ⟨fun _ h => absurd h hsnap, fun _ => hstay⟩

/-- Nothing is lost by a move just when it is harmless. -/
theorem move_loses_nothing (hs : Stored D machines s) :
    NothingLost blank D machines target forcePromote s
        (executeTemplateMoveTask blank target forcePromote o s) ↔
      Harmless machines target forcePromote o s := by
  unfold executeTemplateMoveTask Harmless
  by_cases hpool : s.tree.has (pool '/' target) = true
  · by_cases hcheck : o.poolCheck = .works
    · have hreads : reads o.poolCheck (s.tree.has (pool '/' target)) = true := by
        rw [hpool]
        exact (reads_true _).mpr hcheck
      rw [if_pos hreads]
      simp only [hcheck, hpool, true_implies]
      by_cases hsame : pool '/' s.row = pool '/' target
      · rw [if_pos hsame, if_pos hsame]
        exact nothingLost_samePool hs hpool hsame
      · rw [if_neg hsame, if_neg hsame]
        exact nothingLost_crossPool hs hpool hsame
    · have hreads : ¬reads o.poolCheck (s.tree.has (pool '/' target)) = true := by
        rw [hpool, reads_true]
        exact hcheck
      rw [if_neg hreads]
      exact ⟨fun _ h => absurd h hcheck, fun _ => nothingLost_prepared hs (.inl rfl)⟩
  · have hreads : ¬reads o.poolCheck (s.tree.has (pool '/' target)) = true := by
      intro h
      exact hpool (Bool.and_eq_true_iff.mp h).2
    rw [if_neg hreads]
    exact ⟨fun _ _ h => absurd h hpool, fun _ => nothingLost_prepared hs (.inl rfl)⟩

/-- A template with a clone is moved to another pool; behind the promotion, the transfer fails. -/
theorem move_loses_nothing_fails : ¬∀ (blank D : Nat) (machines : Path → Prop) (target : Path)
    (forcePromote : Bool) (o : Outcomes) (s : Store Nat), Stored D machines s →
      NothingLost blank D machines target forcePromote s
        (executeTemplateMoveTask blank target forcePromote o s) := by
  intro h
  have hstored : Stored 7 (· = "r/c".toList)
      ⟨[("r".toList, ⟨0, [], none⟩), ("r/t".toList, ⟨7, [⟨ready, 7⟩], none⟩),
        ("r/c".toList, ⟨8, [], some ("r/t".toList, ready)⟩), ("s".toList, ⟨0, [], none⟩)],
        "r/t".toList⟩ := by
    refine ⟨wellFormed_of_entries ?_ ?_ ?_ ?_ ?_, ?_, ⟨⟨7, [⟨ready, 7⟩], none⟩, ?_⟩, ?_⟩ <;>
      decide +kernel
  have hlost := h 0 7 _ "s/t".toList true { allWork with sendRecv := .fails } _ hstored
  obtain ⟨d, x, hd, hx, -⟩ := hlost.template
  have hleft : some d = some ⟨7, [], some ("r/c".toList, ready)⟩ := by
    rw [← hd]
    decide +kernel
  cases hleft
  cases hx

/-- A template without clones, moved beside a machine. -/
theorem move_loses_nothing_plain :
    let s : Store Nat := ⟨[("r".toList, ⟨0, [], none⟩), ("r/t".toList, ⟨7, [⟨ready, 7⟩], none⟩),
      ("r/m".toList, ⟨8, [], none⟩), ("s".toList, ⟨0, [], none⟩)], "r/t".toList⟩
    Stored 7 (· = "r/m".toList) s ∧
      (executeTemplateMoveTask 0 "s/t".toList false allWork s).1 = true ∧
      NothingLost 0 7 (· = "r/m".toList) "s/t".toList false s
        (executeTemplateMoveTask 0 "s/t".toList false allWork s) := by
  intro s
  have hstored : Stored 7 (· = "r/m".toList) s := by
    refine ⟨wellFormed_of_entries ?_ ?_ ?_ ?_ ?_, ?_, ⟨⟨7, [⟨ready, 7⟩], none⟩, ?_⟩, ?_⟩ <;>
      decide +kernel
  refine ⟨hstored, by decide +kernel, (move_loses_nothing hstored).mpr ?_⟩
  intro _ _
  rw [if_neg (by decide +kernel)]
  rintro - - - p hp hin
  have hall : ∀ q ∈ KeyedList.keys s.tree, AtOrBelow '/' s.row q → q = s.row := by decide +kernel
  exact hall p ((KeyedList.has_iff_mem_keys _ p).mp hp) hin

end Kinds

end ZoneweaverAgent.TemplateMove
