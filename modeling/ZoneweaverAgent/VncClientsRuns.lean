import ZoneweaverAgent.VncClients

/-!
# The clients are counted

Whatever the order of the events, the tracker holds the clients that have connected and were not
removed. What depends on the order is whether a client is removed when its socket ends: the close
event of a client whose backend is still connecting is not handled.
-/

namespace ZoneweaverAgent.VncClients

open Transition

section Tracker

namespace Tracker
variable {t : Tracker} {held : String → Finset ℕ}

theorem Holds.getD (h : t.Holds held) (zone : String) : (t.get zone).getD ∅ = held zone := by
  rw [h zone]
  split_ifs with hempty
  · exact hempty.symm
  · rfl

theorem Holds.getConnectionCount (h : t.Holds held) (zone : String) :
    t.getConnectionCount zone = (held zone).card := by
  rw [Tracker.getConnectionCount, h zone]
  split_ifs with hempty
  · rw [hempty]
    rfl
  · rfl

theorem Holds.addConnection (h : t.Holds held) (zone : String) (id : ℕ) :
    (t.addConnection zone id).Holds (Function.update held zone (insert id (held zone))) := by
  intro other
  rw [Tracker.addConnection, KeyedList.get_set, h.getD zone]
  rcases eq_or_ne other zone with rfl | hne
  · rw [if_pos rfl, Function.update_self, if_neg (Finset.insert_ne_empty id _)]
  · rw [if_neg hne.symm, Function.update_of_ne hne, h other]

theorem Holds.removeConnection (h : t.Holds held) (zone : String) (id : ℕ) :
    (t.removeConnection zone id).1.Holds
        (Function.update held zone ((held zone).erase id)) ∧
      ((t.removeConnection zone id).2 = true ↔ id ∈ held zone ∧ (held zone).erase id = ∅) := by
  have hget := h zone
  by_cases hempty : held zone = ∅
  · rw [if_pos hempty] at hget
    rw [Tracker.removeConnection, hget, hempty, Finset.erase_empty]
    refine ⟨?_, ?_⟩
    · rwa [← hempty, Function.update_eq_self]
    · simp
  · rw [if_neg hempty] at hget
    rw [Tracker.removeConnection, hget]
    by_cases hlast : (held zone).erase id = ∅
    · have hmem : id ∈ held zone := by
        by_contra hnot
        rw [Finset.erase_eq_of_notMem hnot] at hlast
        exact hempty hlast
      simp only [hlast, Finset.card_empty, if_true]
      refine ⟨fun other => ?_, by simp [hmem]⟩
      rw [KeyedList.get_erase]
      rcases eq_or_ne other zone with rfl | hne
      · rw [if_pos rfl, Function.update_self, if_pos rfl]
      · rw [if_neg hne.symm, Function.update_of_ne hne, h other]
    · simp only [Finset.card_eq_zero, hlast, if_false]
      refine ⟨fun other => ?_, by simp⟩
      rw [KeyedList.get_set]
      rcases eq_or_ne other zone with rfl | hne
      · rw [if_pos rfl, Function.update_self, if_neg hlast]
      · rw [if_neg hne.symm, Function.update_of_ne hne, h other]

end Tracker

end Tracker

section Accounts
namespace Accounts
variable {a : Accounts} {c k : ℕ} {client client' : Client} {zone : String}

theorem mem_connected :
    k ∈ a.connected zone ↔ (∃ x, a.clients[k]? = some x ∧ x.zone = zone) ∧ k ∉ a.left := by
  rw [connected, Finset.mem_filter, Finset.mem_range, Option.map_eq_some_iff]
  constructor
  · rintro ⟨-, h⟩
    exact h
  · rintro ⟨⟨x, hx, hzone⟩, hleft⟩
    exact ⟨(List.getElem?_eq_some_iff.mp hx).1, ⟨x, hx, hzone⟩, hleft⟩

theorem eq_of_mem_connected {other : String} (h : k ∈ a.connected zone)
    (h' : k ∈ a.connected other) : zone = other := by
  obtain ⟨⟨x, hx, hzone⟩, -⟩ := mem_connected.mp h
  obtain ⟨⟨x', hx', hother⟩, -⟩ := mem_connected.mp h'
  rw [hx] at hx'
  cases hx'
  exact hzone.symm.trans hother

theorem lt_of_mem_connected (h : k ∈ a.connected zone) : k < a.clients.length :=
  Finset.mem_range.mp (Finset.mem_filter.mp h).1

theorem getElem?_put (hc : a.clients[c]? = some client) (k : ℕ) :
    (a.put c client').clients[k]? = if c = k then some client' else a.clients[k]? := by
  have hlt := (List.getElem?_eq_some_iff.mp hc).1
  rw [put, List.getElem?_set]
  split_ifs <;> rfl

theorem getElem?_connect (now k : ℕ) :
    (a.connect zone now).clients[k]? =
      if k = a.clients.length then some ⟨zone, now, .opened, .connecting, false⟩
      else a.clients[k]? := by
  rw [connect]
  split_ifs with hk
  · rw [hk, List.getElem?_concat_length]
  · rcases Nat.lt_or_gt_of_ne hk with hlt | hgt
    · rw [List.getElem?_append_left hlt]
    · rw [List.getElem?_eq_none, List.getElem?_eq_none hgt.le]
      rw [List.length_append, List.length_singleton]
      exact hgt

theorem connected_put (hc : a.clients[c]? = some client) (hzone : client'.zone = client.zone) :
    (a.put c client').connected = a.connected := by
  funext zone
  ext k
  have hleft : (a.put c client').left = a.left := rfl
  rw [mem_connected, mem_connected, hleft, getElem?_put hc]
  split_ifs with hk
  · rw [← hk, hc]
    simp [hzone]
  · rfl

theorem connected_connect (hold : ∀ k ∈ a.left, k < a.clients.length) (now : ℕ) :
    (a.connect zone now).connected =
      Function.update a.connected zone (insert a.clients.length (a.connected zone)) := by
  funext other
  ext k
  have hleft : (a.connect zone now).left = a.left := rfl
  rw [mem_connected, hleft, getElem?_connect]
  rcases eq_or_ne other zone with rfl | hne
  · rw [Function.update_self, Finset.mem_insert, mem_connected]
    split_ifs with hk
    · have hnew : k ∉ a.left := fun hmem => (hold k hmem).ne hk
      simp [hk, hk ▸ hnew]
    · simp [hk]
  · rw [Function.update_of_ne hne, mem_connected]
    split_ifs with hk
    · rw [hk, List.getElem?_eq_none le_rfl]
      simp [hne.symm]
    · rfl

theorem mem_left_remove (hholds : a.tracker.Holds a.connected) :
    k ∈ (a.remove c zone).1.left ↔ k ∈ a.left ∨ k = c ∧ c ∈ a.connected zone := by
  simp only [remove, left, hholds.getD]
  split_ifs with hc
  · simp [hc]
  · simp [hc]

theorem connected_remove (hholds : a.tracker.Holds a.connected) :
    (a.remove c zone).1.connected =
      Function.update a.connected zone ((a.connected zone).erase c) := by
  funext other
  ext k
  have hclients : (a.remove c zone).1.clients = a.clients := rfl
  have hmem : k ∈ (a.remove c zone).1.connected other ↔
      k ∈ a.connected other ∧ ¬(k = c ∧ c ∈ a.connected zone) := by
    rw [mem_connected, hclients, mem_left_remove hholds, not_or, ← and_assoc, ← mem_connected]
  rw [hmem]
  rcases eq_or_ne other zone with rfl | hne
  · rw [Function.update_self, Finset.mem_erase]
    constructor
    · rintro ⟨hk, hnot⟩
      exact ⟨fun h => hnot ⟨h, h ▸ hk⟩, hk⟩
    · rintro ⟨hkc, hk⟩
      exact ⟨hk, fun h => hkc h.1⟩
  · rw [Function.update_of_ne hne]
    refine and_iff_left_of_imp ?_
    rintro hk ⟨rfl, hc⟩
    exact hne (eq_of_mem_connected hk hc)

/-- What the order of the events has no influence on. -/
structure Books (a : Accounts) : Prop where
  holds : a.tracker.Holds a.connected
  nodup : a.left.Nodup
  old : ∀ k ∈ a.left, k < a.clients.length
  cleaned : a.cleanups = (a.removed.filter Removal.last).map Removal.client

theorem Books.put (h : a.Books) (hc : a.clients[c]? = some client)
    (hzone : client'.zone = client.zone) : (a.put c client').Books where
  holds := by
    rw [connected_put hc hzone]
    exact h.holds
  nodup := h.nodup
  old k hk := by
    rw [Accounts.put, List.length_set]
    exact h.old k hk
  cleaned := h.cleaned

theorem Books.connect (h : a.Books) (now : ℕ) : (a.connect zone now).Books where
  holds := by
    rw [connected_connect h.old]
    exact h.holds.addConnection zone _
  nodup := h.nodup
  old k hk := by
    rw [Accounts.connect, List.length_append]
    exact Nat.lt_add_right _ (h.old k hk)
  cleaned := h.cleaned

theorem Books.remove (h : a.Books) (c : ℕ) (zone : String) : (a.remove c zone).1.Books where
  holds := by
    rw [connected_remove h.holds]
    exact (h.holds.removeConnection zone c).1
  nodup := by
    simp only [Accounts.remove, left, h.holds.getD]
    split_ifs with hc
    · rw [List.map_append]
      exact h.nodup.append (List.nodup_singleton c)
        (List.disjoint_singleton.mpr (mem_connected.mp hc).2)
    · exact h.nodup
  old k hk := by
    rcases (mem_left_remove h.holds).mp hk with hold | ⟨rfl, hc⟩
    · exact h.old k hold
    · exact (lt_of_mem_connected hc : k < a.clients.length)
  cleaned := by
    have hflag := (h.holds.removeConnection zone c).2
    simp only [Accounts.remove, h.holds.getD, h.cleaned]
    by_cases hc : c ∈ a.connected zone
    · by_cases hlast : (a.connected zone).erase c = ∅
      · rw [if_pos hc, if_pos (hflag.mpr ⟨hc, hlast⟩)]
        simp [hlast]
      · rw [if_pos hc, if_neg fun htrue => hlast (hflag.mp htrue).2]
        simp [hlast]
    · rw [if_neg hc, if_neg fun htrue => hc (hflag.mp htrue).1]

/-- What is known of a client that was removed or was not. -/
structure Attended (a : Accounts) (c : ℕ) (client : Client) : Prop where
  opened : client.socket = .opened → c ∉ a.left
  handled : client.backend ≠ .connecting → client.handlers = true ∨ c ∈ a.left
  ended : client.Ended → c ∈ a.left

structure Sound (a : Accounts) : Prop extends Books a where
  attended : ∀ k x, a.clients[k]? = some x → a.Attended k x

theorem Sound.put (h : a.Sound) (hc : a.clients[c]? = some client)
    (hzone : client'.zone = client.zone) (hnew : a.Attended c client') :
    (a.put c client').Sound where
  toBooks := h.toBooks.put hc hzone
  attended k x hx := by
    rw [getElem?_put hc] at hx
    split_ifs at hx with hk
    · cases hx
      rw [← hk]
      exact ⟨hnew.opened, hnew.handled, hnew.ended⟩
    · have hold := h.attended k x hx
      exact ⟨hold.opened, hold.handled, hold.ended⟩

theorem Sound.connect (h : a.Sound) (now : ℕ) : (a.connect zone now).Sound where
  toBooks := h.toBooks.connect now
  attended k x hx := by
    rw [getElem?_connect] at hx
    split_ifs at hx with hk
    · cases hx
      refine ⟨fun _ hmem => ?_, fun hne => absurd rfl hne, fun hended => ?_⟩
      · exact (h.old k hmem).ne hk
      · rcases hended with hfailed | hclosed
        · cases hfailed
        · cases hclosed
    · have hold := h.attended k x hx
      exact ⟨hold.opened, hold.handled, hold.ended⟩

theorem mem_left_remove_self (hholds : a.tracker.Holds a.connected)
    (hc : a.clients[c]? = some client) : c ∈ (a.remove c client.zone).1.left := by
  rw [mem_left_remove hholds]
  by_cases hleft : c ∈ a.left
  · exact .inl hleft
  · exact .inr ⟨rfl, mem_connected.mpr ⟨⟨client, hc, rfl⟩, hleft⟩⟩

/-- A client is removed when its socket is not open any more. -/
theorem Sound.remove_put (h : a.Sound) (hc : a.clients[c]? = some client)
    (hzone : client'.zone = client.zone) (hsocket : client'.socket ≠ .opened) :
    ((a.remove c client.zone).1.put c client').Sound where
  toBooks := (h.toBooks.remove c client.zone).put hc hzone
  attended k x hx := by
    have hself := mem_left_remove_self h.holds hc
    have hc' : (a.remove c client.zone).1.clients[c]? = some client := hc
    rw [getElem?_put hc'] at hx
    split_ifs at hx with hk
    · cases hx
      rw [← hk]
      exact ⟨fun hopened => absurd hopened hsocket, fun _ => .inr hself, fun _ => hself⟩
    · have hold := h.attended k x hx
      have hleft : k ∈ (a.remove c client.zone).1.left ↔ k ∈ a.left := by
        rw [mem_left_remove h.holds]
        exact or_iff_left fun heq => hk heq.1.symm
      refine ⟨fun hopened hmem => hold.opened hopened (hleft.mp hmem), fun hbackend => ?_,
        fun hended => hleft.mpr (hold.ended hended)⟩
      exact (hold.handled hbackend).imp_right hleft.mpr

theorem sound_empty : (⟨[], [], [], []⟩ : Accounts).Sound where
  holds _ := rfl
  nodup := List.nodup_nil
  old := nofun
  cleaned := rfl
  attended k x hx := by
    rw [List.getElem?_nil] at hx
    cases hx

/-! ### What the books say -/

theorem mem_having {p : Socket → Prop} [DecidablePred p] :
    k ∈ a.having zone p ↔ ∃ x, a.clients[k]? = some x ∧ x.zone = zone ∧ p x.socket := by
  rw [having, Finset.mem_filter, Finset.mem_range, Option.any_eq_true]
  constructor
  · rintro ⟨-, x, hx, hp⟩
    exact ⟨x, hx, of_decide_eq_true hp⟩
  · rintro ⟨x, hx, hp⟩
    exact ⟨(List.getElem?_eq_some_iff.mp hx).1, x, hx, decide_eq_true hp⟩

theorem Sound.counted (h : a.Sound) (zone : String) :
    a.having zone (· = .opened) ⊆ a.connected zone ∧
      a.connected zone ⊆ a.having zone fun socket => socket = .opened ∨ socket = .closing := by
  refine ⟨fun k hk => ?_, fun k hk => ?_⟩
  · obtain ⟨x, hx, hzone, hopened⟩ := mem_having.mp hk
    exact mem_connected.mpr ⟨⟨x, hx, hzone⟩, (h.attended k x hx).opened hopened⟩
  · obtain ⟨⟨x, hx, hzone⟩, hleft⟩ := mem_connected.mp hk
    refine mem_having.mpr ⟨x, hx, hzone, ?_⟩
    have hended : ¬x.Ended := fun hended => hleft ((h.attended k x hx).ended hended)
    cases hsocket : x.socket with
    | opened => exact .inl rfl
    | closing => exact .inr rfl
    | failed => exact absurd (.inl hsocket) hended
    | closed => exact absurd (.inr hsocket) hended

theorem Sound.matched (h : a.Sound) (hc : a.clients[c]? = some client) :
    a.left.count c ≤ 1 ∧ (client.socket = .opened → a.left.count c = 0) ∧
      (client.Ended → a.left.count c = 1) := by
  have hattended := h.attended c client hc
  refine ⟨List.nodup_iff_count_le_one.mp h.nodup c, fun hopened => ?_, fun hended => ?_⟩
  · exact List.count_eq_zero.mpr (hattended.opened hopened)
  · exact List.count_eq_one_of_mem h.nodup (hattended.ended hended)

/-! ### When clients have connected -/

def arrivals (a : Accounts) : List (String × ℕ) :=
  a.clients.map fun client => (client.zone, client.connectedAt)

theorem noneSince_iff (time : ℕ) :
    a.NoneSince zone time ↔ ∀ e ∈ a.arrivals, e.1 = zone → e.2 ≤ time := by
  simp only [NoneSince, arrivals, List.forall_mem_map]

theorem arrivals_put (hc : a.clients[c]? = some client) (hzone : client'.zone = client.zone)
    (htime : client'.connectedAt = client.connectedAt) :
    (a.put c client').arrivals = a.arrivals := by
  obtain ⟨hlt, hclient⟩ := List.getElem?_eq_some_iff.mp hc
  have hlt' : c < a.arrivals.length := by rwa [arrivals, List.length_map]
  have hget : a.arrivals[c] = (client.zone, client.connectedAt) := by
    simp only [arrivals, List.getElem_map, hclient]
  have hset : (a.put c client').arrivals =
      a.arrivals.set c (client.zone, client.connectedAt) := by
    rw [arrivals, put, List.map_set, hzone, htime]
    rfl
  rw [hset, ← hget, List.set_getElem_self hlt']

end Accounts
end Accounts

section Sessions
variable {s s' : State} {l : Label} {c : ℕ} {p : Client → Prop} [DecidablePred p]
  {client : Client} {zone : String} {timer : Timer} {kill : Kill}

/-- Kills are aimed at sessions that no client and no start came behind the timer of. -/
structure Spares (s : State) : Prop where
  early : ∀ k ∈ s.killed, k.killedAt < s.clock
  kills : ∀ k ∈ s.kills, k.startedAt ≤ k.setAt ∧ s.accounts.NoneSince k.zone k.setAt
  killed : ∀ k ∈ s.killed, k.startedAt ≤ k.setAt ∧ ∀ e ∈ s.accounts.arrivals,
    e.1 = k.zone → e.2 ≤ k.setAt ∨ k.killedAt < e.2

theorem Spares.mono (h : Spares s) (hclock : s.clock ≤ s'.clock) (hkills : s'.kills ⊆ s.kills)
    (hkilled : s'.killed = s.killed) (harrivals : s'.accounts.arrivals = s.accounts.arrivals) :
    Spares s' where
  early k hk := by
    rw [hkilled] at hk
    exact (h.early k hk).trans_le hclock
  kills k hk := by
    obtain ⟨hstart, hnone⟩ := h.kills k (hkills hk)
    rw [Accounts.noneSince_iff, harrivals, ← Accounts.noneSince_iff]
    exact ⟨hstart, hnone⟩
  killed := by
    rw [hkilled, harrivals]
    exact h.killed

theorem Spares.connect (h : Spares s) (hno : ∀ k ∈ s.kills, k.zone ≠ zone) :
    Spares { s with accounts := s.accounts.connect zone s.clock } := by
  have harrivals : (s.accounts.connect zone s.clock).arrivals =
      s.accounts.arrivals ++ [(zone, s.clock)] := by
    rw [Accounts.arrivals, Accounts.connect, List.map_append]
    rfl
  refine ⟨h.early, fun k hk => ?_, fun k hk => ?_⟩
  · obtain ⟨hstart, hnone⟩ := h.kills k hk
    refine ⟨hstart, ?_⟩
    rw [Accounts.noneSince_iff] at hnone ⊢
    rw [harrivals]
    intro e he hzone
    rcases List.mem_append.mp he with hold | hnew
    · exact hnone e hold hzone
    · rw [List.mem_singleton.mp hnew] at hzone
      exact absurd hzone.symm (hno k hk)
  · obtain ⟨hstart, hnone⟩ := h.killed k hk
    refine ⟨hstart, ?_⟩
    simp only [harrivals]
    intro e he hzone
    rcases List.mem_append.mp he with hold | hnew
    · exact hnone e hold hzone
    · rw [List.mem_singleton.mp hnew]
      exact .inr (h.early k hk)

theorem Spares.expire (h : Spares s)
    (hfits : ∀ startedAt ∈ s.sessions.get timer.zone,
      s.accounts.tracker.getConnectionCount timer.zone = 0 →
        startedAt ≤ timer.setAt ∧ s.accounts.NoneSince timer.zone timer.setAt) :
    Spares (expire timer s) := by
  rw [VncClients.expire]
  split_ifs with hcount
  · cases hsession : s.sessions.get timer.zone with
    | none => exact h
    | some startedAt =>
      refine ⟨h.early, fun k hk => ?_, h.killed⟩
      rcases List.mem_append.mp hk with hold | hnew
      · exact h.kills k hold
      · rw [List.mem_singleton.mp hnew]
        exact hfits startedAt hsession hcount
  · exact h

theorem accounts_expire (timer : Timer) (s : State) :
    (VncClients.expire timer s).accounts = s.accounts := by
  rw [VncClients.expire]
  split_ifs
  · cases s.sessions.get timer.zone <;> rfl
  · rfl

theorem clock_expire (timer : Timer) (s : State) :
    (VncClients.expire timer s).clock = s.clock := by
  rw [VncClients.expire]
  split_ifs
  · cases s.sessions.get timer.zone <;> rfl
  · rfl

theorem accounts_signal (kill : Kill) (s : State) :
    (VncClients.signal kill s).accounts = s.accounts := by
  rw [VncClients.signal]
  split_ifs <;> rfl

/-- The clients of a kill under way have connected before its timer was set. -/
theorem Spares.signal (h : Spares s) (hstart : kill.startedAt ≤ kill.setAt)
    (hnone : s.accounts.NoneSince kill.zone kill.setAt) :
    Spares { signal kill s with clock := s.clock + 1 } := by
  rw [VncClients.signal]
  split_ifs with hsession
  · rw [Accounts.noneSince_iff] at hnone
    refine ⟨fun k hk => ?_, h.kills, fun k hk => ?_⟩
    · rcases List.mem_append.mp hk with hold | hnew
      · exact (h.early k hold).trans (Nat.lt_succ_self _)
      · rw [List.mem_singleton.mp hnew]
        exact Nat.lt_succ_self _
    · rcases List.mem_append.mp hk with hold | hnew
      · exact h.killed k hold
      · rw [List.mem_singleton.mp hnew]
        exact ⟨hstart, fun e he hzone => .inl (hnone e he hzone)⟩
  · exact h.mono (Nat.le_succ _) (List.Subset.refl _) rfl rfl

theorem Accounts.find_eq_some {a : Accounts} (h : a.find c p = some client) :
    a.clients[c]? = some client ∧ p client := by
  obtain ⟨hc, hp⟩ := Option.filter_eq_some_iff.mp h
  exact ⟨hc, of_decide_eq_true hp⟩

theorem Socket.close_ne_opened (socket : Socket) : socket.close ≠ .opened := by
  cases socket <;> decide

theorem Socket.ended_of_close (socket : Socket)
    (h : socket.close = .failed ∨ socket.close = .closed) :
    socket = .failed ∨ socket = .closed := by
  cases socket with
  | opened => rcases h with h | h <;> cases h
  | closing => exact h
  | failed => exact h
  | closed => exact h

theorem State.accounts_after (s : State) (zone : String) (r : Accounts × Bool) :
    (s.after zone r).accounts = r.1 := by
  rw [State.after, performSmartCleanup]
  split_ifs <;> rfl

theorem Accounts.arrivals_remove_put {a : Accounts} {client' : Client}
    (hc : a.clients[c]? = some client) (hzone : client'.zone = client.zone)
    (htime : client'.connectedAt = client.connectedAt) :
    ((a.remove c zone).1.put c client').arrivals = a.arrivals := by
  have hc' : (a.remove c zone).1.clients[c]? = some client := hc
  rw [arrivals_put hc' hzone htime]
  rfl

theorem Spares.after (h : Spares s) {r : Accounts × Bool}
    (harrivals : r.1.arrivals = s.accounts.arrivals) :
    Spares { s.after zone r with clock := s.clock + 1 } := by
  rw [State.after, performSmartCleanup]
  split_ifs
  · exact h.mono (Nat.le_succ _) (List.Subset.refl _) rfl harrivals
  · exact h.mono (Nat.le_succ _) (List.Subset.refl _) rfl harrivals

structure Inv (s : State) : Prop where
  sound : s.accounts.Sound
  spares : Spares s

theorem Inv.quiet (h : Inv s) (haccounts : s'.accounts = s.accounts) (hkills : s'.kills ⊆ s.kills)
    (hkilled : s'.killed = s.killed) (hclock : s'.clock = s.clock + 1) : Inv s' where
  sound := by
    rw [haccounts]
    exact h.sound
  spares := by
    refine h.spares.mono ?_ hkills hkilled (by rw [haccounts])
    rw [hclock]
    exact Nat.le_succ _

/-- The client changes and is not removed. -/
theorem Inv.put (h : Inv s) {client' : Client} (hc : s.accounts.clients[c]? = some client)
    (hzone : client'.zone = client.zone) (htime : client'.connectedAt = client.connectedAt)
    (hnew : s.accounts.Attended c client') :
    Inv { s with accounts := s.accounts.put c client', clock := s.clock + 1 } where
  sound := h.sound.put hc hzone hnew
  spares := h.spares.mono (Nat.le_succ _) (List.Subset.refl _) rfl
    (Accounts.arrivals_put hc hzone htime)

/-- A handler removes the client. -/
theorem Inv.after (h : Inv s) {client' : Client} {isLastClient : Bool}
    (hc : s.accounts.clients[c]? = some client) (hzone : client'.zone = client.zone)
    (htime : client'.connectedAt = client.connectedAt) (hsocket : client'.socket ≠ .opened) :
    Inv { s.after client.zone
            ((s.accounts.remove c client.zone).1.put c client', isLastClient) with
          clock := s.clock + 1 } where
  sound := by
    change (s.after client.zone _).accounts.Sound
    rw [State.accounts_after]
    exact h.sound.remove_put hc hzone hsocket
  spares := h.spares.after (Accounts.arrivals_remove_put hc hzone htime)

theorem Inv.step (h : Inv s) (hfits : Fits s l) (hstep : step s l = some s') : Inv s' := by
  obtain ⟨t, hact, rfl⟩ := Option.map_eq_some_iff.mp hstep
  cases l with
  | startSession zone =>
    simp only [act] at hact
    split_ifs at hact
    cases hact
    exact h.quiet rfl (List.Subset.refl _) rfl rfl
  | endSession zone =>
    obtain ⟨_, _, rfl⟩ := Option.map_eq_some_iff.mp hact
    exact h.quiet rfl (List.Subset.refl _) rfl rfl
  | connect zone =>
    obtain ⟨_, _, rfl⟩ := Option.map_eq_some_iff.mp hact
    exact ⟨h.sound.connect s.clock,
      (h.spares.connect hfits).mono (Nat.le_succ _) (List.Subset.refl _) rfl rfl⟩
  | clientClosing c =>
    obtain ⟨client, hfind, rfl⟩ := Option.map_eq_some_iff.mp hact
    obtain ⟨hc, -⟩ := Accounts.find_eq_some hfind
    have hold := h.sound.attended c client hc
    refine h.put hc rfl rfl ⟨by rintro ⟨⟩, hold.handled, ?_⟩
    rintro (hfailed | hclosed)
    · cases hfailed
    · cases hclosed
  | clientClose c =>
    obtain ⟨client, hfind, rfl⟩ := Option.map_eq_some_iff.mp hact
    obtain ⟨hc, -⟩ := Accounts.find_eq_some hfind
    have hold := h.sound.attended c client hc
    dsimp only
    split_ifs with hhandlers
    · exact h.after hc rfl rfl (by rintro ⟨⟩)
    · have hleft : c ∈ s.accounts.left :=
        (hold.handled (hfits client hc)).resolve_left hhandlers
      exact h.put hc rfl rfl ⟨by rintro ⟨⟩, hold.handled, fun _ => hleft⟩
  | clientError c =>
    obtain ⟨client, hfind, rfl⟩ := Option.map_eq_some_iff.mp hact
    obtain ⟨hc, -⟩ := Accounts.find_eq_some hfind
    exact h.after hc rfl rfl (by rintro ⟨⟩)
  | backendOpen c =>
    obtain ⟨client, hfind, rfl⟩ := Option.map_eq_some_iff.mp hact
    obtain ⟨hc, -⟩ := Accounts.find_eq_some hfind
    have hold := h.sound.attended c client hc
    exact h.put hc rfl rfl ⟨hold.opened, fun _ => .inl rfl, hold.ended⟩
  | backendError c =>
    obtain ⟨client, hfind, rfl⟩ := Option.map_eq_some_iff.mp hact
    obtain ⟨hc, -⟩ := Accounts.find_eq_some hfind
    exact h.after hc rfl rfl client.socket.close_ne_opened
  | backendClose c =>
    obtain ⟨client, hfind, rfl⟩ := Option.map_eq_some_iff.mp hact
    obtain ⟨hc, hbackend, -⟩ := Accounts.find_eq_some hfind
    have hold := h.sound.attended c client hc
    refine h.put hc rfl rfl ⟨?_, fun _ => hold.handled hbackend, ?_⟩
    · dsimp only
      split_ifs
      · exact fun hopened => absurd hopened client.socket.close_ne_opened
      · exact hold.opened
    · simp only [Client.Ended]
      split_ifs
      · exact fun hended => hold.ended (client.socket.ended_of_close hended)
      · exact hold.ended
  | bootChecked i vncEnabledAtBoot =>
    obtain ⟨_, _, rfl⟩ := Option.map_eq_some_iff.mp hact
    exact h.quiet rfl (List.Subset.refl _) rfl rfl
  | fire =>
    obtain ⟨timer, htimer, rfl⟩ := Option.map_eq_some_iff.mp hact
    have hrest : Spares { s with timers := s.timers.tail } :=
      h.spares.mono le_rfl (List.Subset.refl _) rfl rfl
    have hexpire := hrest.expire (hfits timer htimer)
    refine ⟨?_, hexpire.mono ?_ (List.Subset.refl _) rfl rfl⟩
    · rw [accounts_expire]
      exact h.sound
    · rw [clock_expire]
      exact Nat.le_succ _
  | kill i success =>
    obtain ⟨kill, hkill, rfl⟩ := Option.map_eq_some_iff.mp hact
    have hrest : Spares { s with kills := s.kills.eraseIdx i } :=
      h.spares.mono le_rfl List.eraseIdx_subset rfl rfl
    obtain ⟨hstart, hnone⟩ := h.spares.kills kill (List.mem_of_getElem? hkill)
    dsimp only
    split_ifs
    · refine ⟨?_, hrest.signal hstart hnone⟩
      rw [accounts_signal]
      exact h.sound
    · exact h.quiet rfl List.eraseIdx_subset rfl rfl

theorem inv_started : Inv started where
  sound := Accounts.sound_empty
  spares := ⟨nofun, nofun, nofun⟩

theorem Inv.safe (h : Inv s) : Safe s where
  counted zone := by
    obtain ⟨hopened, hheld⟩ := h.sound.counted zone
    exact ⟨_, hopened, hheld, h.sound.holds.getConnectionCount zone⟩
  matched _ _ hc := h.sound.matched hc
  cleaned := h.sound.cleaned
  spared k hk := by
    obtain ⟨hstart, hnone⟩ := h.spares.killed k hk
    refine ⟨hstart, fun client hclient hzone => ?_⟩
    exact hnone (client.zone, client.connectedAt) (List.mem_map_of_mem hclient) hzone

end Sessions

section Runs

theorem clients_counted (s : State) (h : Reaches step Fits started s) : Safe s :=
  (h.invariant inv_started fun _ _ _ hinv hfits hstep => hinv.step hfits hstep).safe

/-- Two clients share a session that is killed behind the second. -/
def shared : List Label :=
  [.startSession "web", .connect "web", .connect "web", .backendOpen 0, .backendOpen 1,
    .clientClose 0, .backendError 1, .clientClose 1, .bootChecked 0 false, .fire, .kill 0 true]

theorem clients_counted_shared : ∃ s, Reaches step Fits started s ∧
    (s.killed.length = 1 ∧ s.accounts.cleanups = [1]) ∧ Safe s := by
  obtain ⟨s, hreach, hrun⟩ := exists_reaches_of_run step Fits started shared
    (P := fun s => s.killed.length = 1 ∧ s.accounts.cleanups = [1]) (by decide +kernel)
  exact ⟨s, hreach, hrun, clients_counted s hreach⟩

/-- The client leaves before the console server has answered. -/
def lost : List Label :=
  [.startSession "web", .connect "web", .clientClose 0, .backendOpen 0]

/-- The second client comes and goes before the timer of the first has run out. -/
def returned : List Label :=
  [.startSession "web", .connect "web", .backendOpen 0, .clientClose 0, .bootChecked 0 false,
    .connect "web", .backendOpen 1, .clientClose 1, .fire, .kill 0 true]

/-- The session is started again before the timer has run out. -/
def restarted : List Label :=
  [.startSession "web", .connect "web", .backendOpen 0, .clientClose 0, .bootChecked 0 false,
    .endSession "web", .startSession "web", .fire, .kill 0 true]

theorem not_clients_counted :
    (∃ s, Reaches step (fun _ _ => True) started s ∧
      (∀ client ∈ s.accounts.clients, client.Ended) ∧
      s.accounts.tracker.getConnectionCount "web" = 1 ∧ ¬Safe s) ∧
    (∃ s, Reaches step (fun _ _ => True) started s ∧
      (∃ k ∈ s.killed, ∃ client ∈ s.accounts.clients,
        client.zone = k.zone ∧ k.setAt < client.connectedAt ∧ client.connectedAt ≤ k.killedAt) ∧
      ¬Safe s) ∧
    ∃ s, Reaches step (fun _ _ => True) started s ∧
      (∃ k ∈ s.killed, k.setAt < k.startedAt) ∧ ¬Safe s := by
  refine ⟨?_, ?_, ?_⟩
  · obtain ⟨s, hreach, hended, hcount, hhaving⟩ :=
      exists_reaches_of_run step (fun _ _ => True) started lost
        (P := fun s => (∀ client ∈ s.accounts.clients, client.Ended) ∧
          s.accounts.tracker.getConnectionCount "web" = 1 ∧
          s.accounts.having "web" (fun socket => socket = .opened ∨ socket = .closing) = ∅)
        (by decide +kernel)
    refine ⟨s, hreach, hended, hcount, fun hsafe => ?_⟩
    obtain ⟨held, -, hheld, hcard⟩ := hsafe.counted "web"
    rw [hhaving, Finset.subset_empty] at hheld
    rw [hcount, hheld, Finset.card_empty] at hcard
    exact absurd hcard Nat.one_ne_zero
  · obtain ⟨s, hreach, hkilled⟩ :=
      exists_reaches_of_run step (fun _ _ => True) started returned
        (P := fun s => ∃ k ∈ s.killed, ∃ client ∈ s.accounts.clients,
          client.zone = k.zone ∧ k.setAt < client.connectedAt ∧ client.connectedAt ≤ k.killedAt)
        (by decide +kernel)
    refine ⟨s, hreach, hkilled, fun hsafe => ?_⟩
    obtain ⟨k, hk, client, hclient, hzone, hset, htime⟩ := hkilled
    rcases (hsafe.spared k hk).2 client hclient hzone with hearly | hlate
    · exact absurd hset (Nat.not_lt.mpr hearly)
    · exact absurd hlate (Nat.not_lt.mpr htime)
  · obtain ⟨s, hreach, hkilled⟩ :=
      exists_reaches_of_run step (fun _ _ => True) started restarted
        (P := fun s => ∃ k ∈ s.killed, k.setAt < k.startedAt) (by decide +kernel)
    refine ⟨s, hreach, hkilled, fun hsafe => ?_⟩
    obtain ⟨k, hk, hset⟩ := hkilled
    exact absurd hset (Nat.not_lt.mpr (hsafe.spared k hk).1)

end Runs

end ZoneweaverAgent.VncClients
