import Mathlib.Data.List.Nodup
import ZoneweaverAgent.LikePattern

/-!
# The records of a machine that is deleted

`executeDeleteTask` over the tables it writes. The queries of all interfaces are issued before any
deletion; the deletions that run in parallel each take out rows by a condition of their own, so
their order makes no difference.
-/

namespace ZoneweaverAgent.ZoneRecords
open LikePattern

abbrev Name := List Char

def validateZoneName : Name → Bool
  | [] => false
  | c :: rest =>
    c.isAlphanum && (rest.all fun x => x.isAlphanum || x = '-' || x = '_' || x = '.') &&
      (rest.getLast?.all Char.isAlphanum) && (c :: rest).length ≤ 64

structure UsageRow where
  id : ℕ
  host : Name
  link : Name
  deriving DecidableEq

structure AddressRow where
  id : ℕ
  host : Name
  addrobj : Name
  interface : Name
  deriving DecidableEq

structure InterfaceRow where
  id : ℕ
  host : Name
  link : Name
  cls : Option Name
  zone : Option Name
  deriving DecidableEq

structure TaskRow where
  id : ℕ
  zoneName : Name
  status : Name
  deriving DecidableEq

structure Db where
  networkUsage : List UsageRow
  ipAddresses : List AddressRow
  networkInterfaces : List InterfaceRow
  tasks : List TaskRow
  zones : List Name
  deriving DecidableEq

/-- How the commands end: `zoneadm uninstall`, `zonecfg delete`, the cleanup of the datasets where
it is asked for, and `ipadm delete-addr` and `dladm delete-vnic` for each name. -/
structure Outcomes where
  uninstall : Bool
  delete : Bool
  datasets : Bool
  deleteAddr : Name → Bool
  deleteVnic : Name → Bool

section Task
variable (hostname : Name) (o : Outcomes)

def executeDeleteIPAddressTask (db : Db) (addrobj : Name) : Db :=
  if o.deleteAddr addrobj then
    { db with
      ipAddresses := db.ipAddresses.filter fun a => !(a.host = hostname && a.addrobj = addrobj) }
  else db

def vnic : Name := ['v', 'n', 'i', 'c']

def executeDeleteVNICTask (db : Db) (link : Name) : Db :=
  if o.deleteVnic link then
    { db with
      networkInterfaces := db.networkInterfaces.filter fun i =>
        !(i.host = hostname && i.link = link && i.cls = some vnic)
      networkUsage := db.networkUsage.filter fun u => !(u.host = hostname && u.link = link) }
  else db

/-- `UPDATE network_interfaces SET zone = NULL` -/
def dissociate (db : Db) (p : InterfaceRow → Bool) : Db :=
  { db with
    networkInterfaces := db.networkInterfaces.map fun i => if p i then { i with zone := none } else i }

def cleanupInterface (db : Db) (iface : InterfaceRow) : Db :=
  if iface.cls = some vnic then executeDeleteVNICTask hostname o db iface.link
  else dissociate db fun i => i.id = iface.id

def cleanupRecords (zoneName : Name) (db : Db) : Db :=
  { db with
    zones := db.zones.filter fun z => z ≠ zoneName
    networkUsage := db.networkUsage.filter fun u => !like (zoneName ++ ['%']) u.link
    ipAddresses := db.ipAddresses.filter fun a => !like (zoneName ++ ['%']) a.interface
    tasks := db.tasks.map fun t =>
      if t.zoneName = zoneName ∧ t.status = "pending".toList then
        { t with status := "cancelled".toList }
      else t }

/-- The addresses that are deleted with the interfaces. -/
def addressesOf (db : Db) (zoneInterfaces : List InterfaceRow) : List Name :=
  zoneInterfaces.flatMap fun iface =>
    (db.ipAddresses.filter fun a => a.interface = iface.link).map AddressRow.addrobj

def executeDeleteTask (zoneName : Name) (cleanupNetworking : Bool) (db : Db) : Bool × Db :=
  if o.uninstall && o.delete && o.datasets then
    let zoneInterfaces := db.networkInterfaces.filter fun i => i.zone = some zoneName
    let db' :=
      if cleanupNetworking then
        zoneInterfaces.foldl (cleanupInterface hostname o)
          ((addressesOf db zoneInterfaces).foldl (executeDeleteIPAddressTask hostname o) db)
      else dissociate db fun i => i.zone = some zoneName
    (true, cleanupRecords zoneName db')
  else (false, db)

end Task

/-! ## The rows of the others -/

section Property
variable (zoneName : Name) (db db' : Db)

/-- The link is one of another machine. -/
def Foreign (link : Name) : Prop :=
  ∃ m ∈ db.zones, m ≠ zoneName ∧ ∃ i ∈ db.networkInterfaces, i.link = link ∧ i.zone = some m

structure OthersUnchanged : Prop where
  networkUsage : ∀ u ∈ db.networkUsage, Foreign zoneName db u.link → u ∈ db'.networkUsage
  ipAddresses : ∀ a ∈ db.ipAddresses, Foreign zoneName db a.interface → a ∈ db'.ipAddresses
  networkInterfaces : ∀ i ∈ db.networkInterfaces, (∃ m ∈ db.zones, m ≠ zoneName ∧ i.zone = some m) →
    i ∈ db'.networkInterfaces
  tasks : ∀ t ∈ db.tasks, t.zoneName ≠ zoneName → t ∈ db'.tasks
  zones : ∀ z ∈ db.zones, z ≠ zoneName → z ∈ db'.zones

variable (hostname : Name) (o : Outcomes)

/-- No link of another machine begins with the name, where `_` stands for any character and letters
have no case. -/
def NotLedBy : Prop :=
  (∀ u ∈ db.networkUsage, Foreign zoneName db u.link → leads zoneName u.link = false) ∧
    ∀ a ∈ db.ipAddresses, Foreign zoneName db a.interface → leads zoneName a.interface = false

/-- What the deletion of a network resource of the machine takes out is not another's. -/
def NotShared : Prop :=
  (∀ name ∈ addressesOf db (db.networkInterfaces.filter fun i => i.zone = some zoneName),
    o.deleteAddr name = true → ∀ a ∈ db.ipAddresses, a.host = hostname → a.addrobj = name →
      ¬Foreign zoneName db a.interface) ∧
    ∀ i ∈ db.networkInterfaces, i.zone = some zoneName → i.cls = some vnic →
      o.deleteVnic i.link = true →
        (∀ u ∈ db.networkUsage, u.host = hostname → u.link = i.link →
          ¬Foreign zoneName db u.link) ∧
        ∀ j ∈ db.networkInterfaces, j.host = hostname → j.link = i.link → j.cls = some vnic →
          ¬∃ m ∈ db.zones, m ≠ zoneName ∧ j.zone = some m

end Property

/-! ## What each deletion takes out -/

section Effects
variable {hostname zoneName : Name} {o : Outcomes} {db : Db}

theorem percent_not_mem (h : validateZoneName zoneName = true) : '%' ∉ zoneName := by
  intro hmem
  cases zoneName with
  | nil => cases hmem
  | cons c rest =>
    simp only [validateZoneName, Bool.and_eq_true, List.all_eq_true] at h
    rcases List.mem_cons.mp hmem with rfl | hrest
    · exact absurd h.1.1.1 (by decide)
    · exact absurd (h.1.1.2 '%' hrest) (by decide)

/-- The deletion of the addresses takes out the rows with the names for which the command works. -/
theorem deleteAddresses_spec (names : List Name) (db : Db) :
    let db' := names.foldl (executeDeleteIPAddressTask hostname o) db
    (∀ a, a ∈ db'.ipAddresses ↔ a ∈ db.ipAddresses ∧
      ¬(a.host = hostname ∧ a.addrobj ∈ names ∧ o.deleteAddr a.addrobj = true)) ∧
    db' = { db with ipAddresses := db'.ipAddresses } := by
  induction names generalizing db with
  | nil => simp
  | cons name names ih =>
    obtain ⟨hrows, hrest⟩ := ih (executeDeleteIPAddressTask hostname o db name)
    rw [List.foldl_cons]
    constructor
    · intro a
      rw [hrows, executeDeleteIPAddressTask]
      by_cases hworks : o.deleteAddr name = true
      · rw [if_pos hworks]
        simp only [List.mem_filter, List.mem_cons, Bool.not_eq_true', Bool.and_eq_false_iff,
          decide_eq_false_iff_not]
        by_cases hname : a.addrobj = name
        · rw [hname]
          simp only [hworks]
          tauto
        · tauto
      · rw [if_neg hworks]
        simp only [List.mem_cons]
        by_cases hname : a.addrobj = name
        · rw [hname]
          tauto
        · tauto
    · rw [hrest, executeDeleteIPAddressTask]
      split_ifs <;> rfl

/-- An interface that is given up takes out the rows of its link, and of no other interface. -/
theorem cleanupInterface_spec (i : InterfaceRow) (db : Db) :
    let db' := cleanupInterface hostname o db i
    (∀ u, u ∈ db'.networkUsage ↔ u ∈ db.networkUsage ∧
      ¬(u.host = hostname ∧ u.link = i.link ∧ i.cls = some vnic ∧ o.deleteVnic i.link = true)) ∧
    (∀ j, j.id ≠ i.id → (j ∈ db'.networkInterfaces ↔ j ∈ db.networkInterfaces ∧
      ¬(j.host = hostname ∧ j.link = i.link ∧ j.cls = some vnic ∧ i.cls = some vnic ∧
        o.deleteVnic i.link = true))) ∧
    db' = { db with
      networkUsage := db'.networkUsage
      networkInterfaces := db'.networkInterfaces } := by
  unfold cleanupInterface
  by_cases hvnic : i.cls = some vnic
  · rw [if_pos hvnic]
    unfold executeDeleteVNICTask
    by_cases hworks : o.deleteVnic i.link = true
    · rw [if_pos hworks]
      refine ⟨fun u => ?_, fun j _ => ?_, rfl⟩
      · simp only [List.mem_filter, Bool.not_eq_true', Bool.and_eq_false_iff,
          decide_eq_false_iff_not]
        tauto
      · simp only [List.mem_filter, Bool.not_eq_true', Bool.and_eq_false_iff,
          decide_eq_false_iff_not]
        tauto
    · rw [if_neg hworks]
      refine ⟨fun u => ?_, fun j _ => ?_, rfl⟩ <;> tauto
  · rw [if_neg hvnic]
    refine ⟨fun u => ?_, fun j hj => ?_, rfl⟩
    · simp only [dissociate]
      tauto
    · have hmem : j ∈ (dissociate db fun k => k.id = i.id).networkInterfaces ↔
          j ∈ db.networkInterfaces := by
        unfold dissociate
        constructor
        · intro hmem
          obtain ⟨k, hk, rfl⟩ := List.mem_map.mp hmem
          split_ifs at hj ⊢ with hid
          · exact absurd (of_decide_eq_true hid) hj
          · exact hk
        · intro hmem
          refine List.mem_map.mpr ⟨j, hmem, ?_⟩
          rw [if_neg (by simpa using hj)]
      rw [hmem]
      tauto

theorem cleanupInterfaces_spec (ifaces : List InterfaceRow) (db : Db) :
    let db' := ifaces.foldl (cleanupInterface hostname o) db
    (∀ u, u ∈ db'.networkUsage ↔ u ∈ db.networkUsage ∧
      ¬∃ i ∈ ifaces, u.host = hostname ∧ u.link = i.link ∧ i.cls = some vnic ∧
        o.deleteVnic i.link = true) ∧
    (∀ j, (∀ i ∈ ifaces, j.id ≠ i.id) → (j ∈ db'.networkInterfaces ↔ j ∈ db.networkInterfaces ∧
      ¬∃ i ∈ ifaces, j.host = hostname ∧ j.link = i.link ∧ j.cls = some vnic ∧
        i.cls = some vnic ∧ o.deleteVnic i.link = true)) ∧
    db' = { db with
      networkUsage := db'.networkUsage
      networkInterfaces := db'.networkInterfaces } := by
  induction ifaces generalizing db with
  | nil => simp
  | cons i ifaces ih =>
    obtain ⟨husage, hinterfaces, hrest⟩ := ih (cleanupInterface hostname o db i)
    obtain ⟨husage₁, hinterfaces₁, hrest₁⟩ := @cleanupInterface_spec hostname o i db
    rw [List.foldl_cons]
    refine ⟨fun u => ?_, fun j hj => ?_, ?_⟩
    · rw [husage, husage₁, List.exists_mem_cons_iff, not_or, and_assoc]
    · rw [hinterfaces j fun k hk => hj k (List.mem_cons_of_mem i hk),
        hinterfaces₁ j (hj i List.mem_cons_self), List.exists_mem_cons_iff, not_or, and_assoc]
    · rw [hrest, hrest₁]

end Effects

/-! ## When the others keep their rows -/

section Others
variable {hostname zoneName : Name} {o : Outcomes} {db : Db}

/-- The fallback on the name takes out what is led by it. -/
theorem cleanupRecords_usage (h : validateZoneName zoneName = true) (u : UsageRow) :
    u ∈ (cleanupRecords zoneName db).networkUsage ↔
      u ∈ db.networkUsage ∧ leads zoneName u.link = false := by
  simp only [cleanupRecords, List.mem_filter, like_append_percent (percent_not_mem h),
    Bool.not_eq_true']

theorem cleanupRecords_addresses (h : validateZoneName zoneName = true) (a : AddressRow) :
    a ∈ (cleanupRecords zoneName db).ipAddresses ↔
      a ∈ db.ipAddresses ∧ leads zoneName a.interface = false := by
  simp only [cleanupRecords, List.mem_filter, like_append_percent (percent_not_mem h),
    Bool.not_eq_true']

theorem cleanupRecords_tasks {t : TaskRow} (ht : t ∈ db.tasks) (hne : t.zoneName ≠ zoneName) :
    t ∈ (cleanupRecords zoneName db).tasks := by
  refine List.mem_map.mpr ⟨t, ht, ?_⟩
  rw [if_neg fun h => hne h.1]

theorem cleanupRecords_zones {z : Name} (hz : z ∈ db.zones) (hne : z ≠ zoneName) :
    z ∈ (cleanupRecords zoneName db).zones :=
  List.mem_filter.mpr ⟨hz, by simpa using hne⟩

/-- The rows that are left when the network resources are given up as well. -/
theorem cleanedUp_spec (h : validateZoneName zoneName = true)
    (hids : (db.networkInterfaces.map InterfaceRow.id).Nodup) :
    let ifaces := db.networkInterfaces.filter fun i => i.zone = some zoneName
    let db' := cleanupRecords zoneName (ifaces.foldl (cleanupInterface hostname o)
      ((addressesOf db ifaces).foldl (executeDeleteIPAddressTask hostname o) db))
    (∀ u ∈ db.networkUsage, u ∈ db'.networkUsage ↔ leads zoneName u.link = false ∧
      ¬∃ i ∈ ifaces, u.host = hostname ∧ u.link = i.link ∧ i.cls = some vnic ∧
        o.deleteVnic i.link = true) ∧
    (∀ a ∈ db.ipAddresses, a ∈ db'.ipAddresses ↔ leads zoneName a.interface = false ∧
      ¬(a.host = hostname ∧ a.addrobj ∈ addressesOf db ifaces ∧ o.deleteAddr a.addrobj = true)) ∧
    (∀ j ∈ db.networkInterfaces, j.zone ≠ some zoneName → (j ∈ db'.networkInterfaces ↔
      ¬∃ i ∈ ifaces, j.host = hostname ∧ j.link = i.link ∧ j.cls = some vnic ∧
        i.cls = some vnic ∧ o.deleteVnic i.link = true)) ∧
    (∀ t ∈ db.tasks, t.zoneName ≠ zoneName → t ∈ db'.tasks) ∧
    ∀ z ∈ db.zones, z ≠ zoneName → z ∈ db'.zones := by
  intro ifaces db'
  obtain ⟨haddr, hrest₁⟩ := @deleteAddresses_spec hostname o (addressesOf db ifaces) db
  generalize hdb₁ : (addressesOf db ifaces).foldl (executeDeleteIPAddressTask hostname o) db = db₁
    at haddr hrest₁
  obtain ⟨husage, hinterfaces, hrest₂⟩ := @cleanupInterfaces_spec hostname o ifaces db₁
  have hfinal : db' = cleanupRecords zoneName (ifaces.foldl (cleanupInterface hostname o) db₁) := by
    rw [← hdb₁]
  rw [hfinal]
  generalize ifaces.foldl (cleanupInterface hostname o) db₁ = db₂ at husage hinterfaces hrest₂ ⊢
  have husage₁ : db₁.networkUsage = db.networkUsage := by rw [hrest₁]
  have hinterfaces₁ : db₁.networkInterfaces = db.networkInterfaces := by rw [hrest₁]
  have haddr₂ : db₂.ipAddresses = db₁.ipAddresses := by rw [hrest₂]
  have htasks : db₂.tasks = db.tasks := by rw [hrest₂, hrest₁]
  have hzones : db₂.zones = db.zones := by rw [hrest₂, hrest₁]
  refine ⟨fun u hu => ?_, fun a ha => ?_, fun j hj hzone => ?_, fun t ht hne => ?_,
    fun z hz hne => ?_⟩
  · rw [cleanupRecords_usage h, husage, husage₁]
    tauto
  · rw [cleanupRecords_addresses h, haddr₂, haddr]
    tauto
  · have hid : ∀ i ∈ ifaces, j.id ≠ i.id := by
      intro i hi heq
      obtain ⟨hi, hiz⟩ := List.mem_filter.mp hi
      rw [List.inj_on_of_nodup_map hids hj hi heq] at hzone
      exact hzone (of_decide_eq_true hiz)
    change j ∈ db₂.networkInterfaces ↔ _
    rw [hinterfaces j hid, hinterfaces₁]
    exact and_iff_right hj
  · exact cleanupRecords_tasks (htasks ▸ ht) hne
  · exact cleanupRecords_zones (hzones ▸ hz) hne

/-- The other machines keep their rows just when no link of theirs is led by the name, and what is
deleted with the network resources of the machine is not theirs. -/
theorem others_unchanged (cleanupNetworking : Bool) (h : validateZoneName zoneName = true)
    (hids : (db.networkInterfaces.map InterfaceRow.id).Nodup) :
    OthersUnchanged zoneName db (executeDeleteTask hostname o zoneName cleanupNetworking db).2 ↔
      ((o.uninstall && o.delete && o.datasets) = true → NotLedBy zoneName db ∧
        (cleanupNetworking = true → NotShared zoneName db hostname o)) := by
  unfold executeDeleteTask
  by_cases hreached : (o.uninstall && o.delete && o.datasets) = true
  · rw [if_pos hreached]
    simp only [hreached, true_implies]
    cases cleanupNetworking with
    | false =>
      simp only [Bool.false_eq_true, false_implies, and_true, if_false]
      constructor
      · rintro ⟨husage, haddr, -⟩
        constructor
        · intro u hu hforeign
          exact ((cleanupRecords_usage h u).mp (husage u hu hforeign)).2
        · intro a ha hforeign
          exact ((cleanupRecords_addresses h a).mp (haddr a ha hforeign)).2
      · rintro ⟨husage, haddr⟩
        constructor
        case networkUsage =>
          exact fun u hu hf => (cleanupRecords_usage h u).mpr ⟨hu, husage u hu hf⟩
        case ipAddresses =>
          exact fun a ha hf => (cleanupRecords_addresses h a).mpr ⟨ha, haddr a ha hf⟩
        case networkInterfaces =>
          rintro j hj ⟨m, -, hne, hzone⟩
          refine List.mem_map.mpr ⟨j, hj, ?_⟩
          rw [if_neg]
          change ¬decide (j.zone = some zoneName) = true
          rw [hzone, decide_eq_true_eq, Option.some.injEq]
          exact hne
        case tasks => exact fun t ht hne => cleanupRecords_tasks ht hne
        case zones => exact fun z hz hne => cleanupRecords_zones hz hne
    | true =>
      simp only [true_implies, if_true]
      obtain ⟨husage, haddr, hinterfaces, htasks, hzones⟩ :=
        @cleanedUp_spec hostname zoneName o db h hids
      constructor
      · rintro ⟨husage', haddr', hinterfaces', -⟩
        refine ⟨⟨fun u hu hf => ((husage u hu).mp (husage' u hu hf)).1,
          fun a ha hf => ((haddr a ha).mp (haddr' a ha hf)).1⟩, ?_, ?_⟩
        · intro name hname hworks a ha hhost haddrobj hf
          subst haddrobj
          exact ((haddr a ha).mp (haddr' a ha hf)).2 ⟨hhost, hname, hworks⟩
        · intro i hi hzone hvnic hworks
          have hmem : i ∈ db.networkInterfaces.filter fun i => i.zone = some zoneName :=
            List.mem_filter.mpr ⟨hi, by simpa using hzone⟩
          constructor
          · intro u hu hhost hlink hf
            exact ((husage u hu).mp (husage' u hu hf)).2 ⟨i, hmem, hhost, hlink, hvnic, hworks⟩
          · rintro j hj hhost hlink hj' ⟨m, hm, hne, hjz⟩
            have hjne : j.zone ≠ some zoneName := by
              rw [hjz]
              exact fun heq => hne (Option.some.inj heq)
            exact (hinterfaces j hj hjne).mp (hinterfaces' j hj ⟨m, hm, hne, hjz⟩)
              ⟨i, hmem, hhost, hlink, hj', hvnic, hworks⟩
      · rintro ⟨⟨hled, hled'⟩, haddrs, hlinks⟩
        constructor
        case networkUsage =>
          intro u hu hf
          refine (husage u hu).mpr ⟨hled u hu hf, ?_⟩
          rintro ⟨i, hi, hhost, hlink, hvnic, hworks⟩
          obtain ⟨hi, hzone⟩ := List.mem_filter.mp hi
          exact (hlinks i hi (of_decide_eq_true hzone) hvnic hworks).1 u hu hhost hlink hf
        case ipAddresses =>
          intro a ha hf
          refine (haddr a ha).mpr ⟨hled' a ha hf, ?_⟩
          rintro ⟨hhost, hname, hworks⟩
          exact haddrs _ hname hworks a ha hhost rfl hf
        case networkInterfaces =>
          rintro j hj ⟨m, hm, hne, hjz⟩
          have hjne : j.zone ≠ some zoneName := by
            rw [hjz]
            exact fun heq => hne (Option.some.inj heq)
          refine (hinterfaces j hj hjne).mpr ?_
          rintro ⟨i, hi, hhost, hlink, hj', hvnic, hworks⟩
          obtain ⟨hi, hzone⟩ := List.mem_filter.mp hi
          exact (hlinks i hi (of_decide_eq_true hzone) hvnic hworks).2 j hj hhost hlink hj'
            ⟨m, hm, hne, hjz⟩
        case tasks => exact htasks
        case zones => exact hzones
  · rw [if_neg hreached]
    refine ⟨fun _ hr => absurd hr hreached, fun _ => ?_⟩
    exact ⟨fun _ h _ => h, fun _ h _ => h, fun _ h _ => h, fun _ h _ => h, fun _ h _ => h⟩

/-- `web` is deleted; the usage of a link of `web2` goes with it. -/
theorem others_unchanged_fails : ¬∀ (hostname zoneName : Name) (o : Outcomes)
    (cleanupNetworking : Bool) (db : Db), validateZoneName zoneName = true →
      (∀ m ∈ db.zones, validateZoneName m = true) →
      (db.networkInterfaces.map InterfaceRow.id).Nodup →
      OthersUnchanged zoneName db
        (executeDeleteTask hostname o zoneName cleanupNetworking db).2 := by
  intro h
  have hlost := h "hv".toList "web".toList ⟨true, true, true, fun _ => true, fun _ => true⟩ false
    ⟨[⟨1, "hv".toList, "web2_0".toList⟩], [],
      [⟨1, "hv".toList, "web2_0".toList, some vnic, some "web2".toList⟩], [],
      ["web".toList, "web2".toList]⟩ (by decide) (by decide) (by decide)
  have hmem := hlost.networkUsage ⟨1, "hv".toList, "web2_0".toList⟩ (by decide)
    ⟨"web2".toList, by decide, by decide, _, List.mem_singleton_self _, rfl, rfl⟩
  revert hmem
  decide

theorem others_unchanged_apart :
    let db : Db := ⟨[⟨1, "hv".toList, "web2_0".toList⟩, ⟨2, "hv".toList, "db1_0".toList⟩], [],
      [⟨1, "hv".toList, "web2_0".toList, some vnic, some "web2".toList⟩,
        ⟨2, "hv".toList, "db1_0".toList, some vnic, some "db1".toList⟩], [],
      ["db1".toList, "web2".toList]⟩
    OthersUnchanged "db1".toList db (executeDeleteTask "hv".toList
      ⟨true, true, true, fun _ => true, fun _ => true⟩ "db1".toList false db).2 := by
  intro db
  refine (others_unchanged false (by decide) (by decide)).mpr fun _ => ⟨⟨?_, ?_⟩, nofun⟩
  · intro u hu hforeign
    rcases List.mem_cons.mp hu with rfl | hu
    · decide
    · obtain rfl := List.mem_singleton.mp hu
      obtain ⟨m, -, hne, i, hi, hlink, hzone⟩ := hforeign
      have hall : ∀ i ∈ db.networkInterfaces, i.link = "db1_0".toList →
          i.zone = some "db1".toList := by decide
      rw [hall i hi hlink] at hzone
      exact absurd (Option.some.inj hzone).symm hne
  · exact fun a ha => nomatch ha

end Others

end ZoneweaverAgent.ZoneRecords
