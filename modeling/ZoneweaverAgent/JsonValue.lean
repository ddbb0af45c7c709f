import Mathlib.Algebra.Order.Ring.Unbundled.Rat
import ZoneweaverAgent.KeyedList

/-!
# JSON values

The values a JSON column, a request body or a `zadm` output carries. A missing property is the
absence of a value, `none`, so `undefined` needs no constructor of its own. The entries of an object
keep their order.
-/

namespace ZoneweaverAgent

inductive Json
  | null
  | bool (value : Bool)
  | num (value : ℚ)
  | str (value : String)
  | arr (items : List Json)
  | obj (entries : List (String × Json))
  deriving Inhabited

namespace Json

def truthy : Json → Bool
  | null => false
  | bool b => b
  | num q => q != 0
  | str s => s != ""
  | arr _ => true
  | obj _ => true

/-- `typeof value === 'object'` of a value that is not null. -/
def isObject : Json → Bool
  | arr _ => true
  | obj _ => true
  | _ => false

def field (key : String) : Json → Option Json
  | obj entries => KeyedList.get entries key
  | _ => none

def text? : Json → Option String
  | str s => some s
  | _ => none

def items? : Json → Option (List Json)
  | arr items => some items
  | _ => none

def isTrue : Json → Bool
  | bool b => b
  | _ => false

def isBool : Json → Bool
  | bool _ => true
  | _ => false

def isNum : Json → Bool
  | num _ => true
  | _ => false

def isMap : Json → Bool
  | obj _ => true
  | _ => false

mutual
/-- Whether a value can be turned into text: an own `toString` of a parsed object hides the
inherited one, and the conversion throws. -/
def hasText : Json → Bool
  | obj entries => !KeyedList.has entries "toString"
  | arr items => itemsHaveText items
  | _ => true

def itemsHaveText : List Json → Bool
  | [] => true
  | item :: rest => hasText item && itemsHaveText rest
end

/-- `Number.isInteger(value) && value >= 1` -/
def isPositiveInteger : Json → Bool
  | num q => q.den == 1 && decide (1 ≤ q)
  | _ => false

mutual
def beq : Json → Json → Bool
  | null, null => true
  | bool a, bool b => a == b
  | num a, num b => a == b
  | str a, str b => a == b
  | arr as, arr bs => beqItems as bs
  | obj as, obj bs => beqEntries as bs
  | _, _ => false

def beqItems : List Json → List Json → Bool
  | [], [] => true
  | a :: as, b :: bs => beq a b && beqItems as bs
  | _, _ => false

def beqEntries : List (String × Json) → List (String × Json) → Bool
  | [], [] => true
  | (k, a) :: as, (l, b) :: bs => k == l && beq a b && beqEntries as bs
  | _, _ => false
end

mutual
theorem eq_of_beq : ∀ {a b : Json}, beq a b = true → a = b
  | null, b, h => by cases b <;> simp_all [beq]
  | bool _, b, h => by cases b <;> simp_all [beq]
  | num _, b, h => by cases b <;> simp_all [beq]
  | str _, b, h => by cases b <;> simp_all [beq]
  | arr as, b, h => by
    cases b with
    | arr bs =>
      have hitems : beqItems as bs = true := by simpa only [beq] using h
      rw [eq_of_beqItems hitems]
    | _ => simp [beq] at h
  | obj as, b, h => by
    cases b with
    | obj bs =>
      have hentries : beqEntries as bs = true := by simpa only [beq] using h
      rw [eq_of_beqEntries hentries]
    | _ => simp [beq] at h

theorem eq_of_beqItems : ∀ {as bs : List Json}, beqItems as bs = true → as = bs
  | [], bs, h => by cases bs <;> simp_all [beqItems]
  | a :: as, bs, h => by
    cases bs with
    | nil => simp [beqItems] at h
    | cons b bs =>
      simp only [beqItems, Bool.and_eq_true] at h
      rw [eq_of_beq h.1, eq_of_beqItems h.2]

theorem eq_of_beqEntries : ∀ {as bs : List (String × Json)}, beqEntries as bs = true → as = bs
  | [], bs, h => by cases bs <;> simp_all [beqEntries]
  | (k, a) :: as, bs, h => by
    cases bs with
    | nil => simp [beqEntries] at h
    | cons e bs =>
      obtain ⟨l, b⟩ := e
      simp only [beqEntries, Bool.and_eq_true, beq_iff_eq] at h
      rw [h.1.1, eq_of_beq h.1.2, eq_of_beqEntries h.2]
end

mutual
theorem beq_self : ∀ a : Json, beq a a = true
  | null => rfl
  | bool _ => by simp [beq]
  | num _ => by simp [beq]
  | str _ => by simp [beq]
  | arr as => by simpa only [beq] using beqItems_self as
  | obj as => by simpa only [beq] using beqEntries_self as

theorem beqItems_self : ∀ as : List Json, beqItems as as = true
  | [] => rfl
  | a :: as => by simp only [beqItems, beq_self a, beqItems_self as, Bool.and_self]

theorem beqEntries_self : ∀ as : List (String × Json), beqEntries as as = true
  | [] => rfl
  | (k, a) :: as => by simp [beqEntries, beq_self a, beqEntries_self as]
end

instance : DecidableEq Json := fun a b =>
  decidable_of_iff (beq a b = true) ⟨eq_of_beq, fun h => h ▸ beq_self a⟩

@[simp] theorem truthy_obj (entries : List (String × Json)) : (obj entries).truthy = true := rfl

@[simp] theorem isObject_obj (entries : List (String × Json)) : (obj entries).isObject = true := rfl

@[simp] theorem field_obj (key : String) (entries : List (String × Json)) :
    (obj entries).field key = KeyedList.get entries key := rfl

end Json

/-- `value || fallback` of a property that may be missing. -/
def orElseTruthy (value : Option Json) (fallback : Json) : Json :=
  match value with
  | some v => if v.truthy then v else fallback
  | none => fallback

/-- The characters `String.prototype.trim` removes. -/
def isTrimmed (c : Char) : Bool :=
  c.toNat ∈ [0x9, 0xA, 0xB, 0xC, 0xD, 0x20, 0xA0, 0x1680, 0x2028, 0x2029, 0x202F, 0x205F, 0x3000,
    0xFEFF] || (0x2000 ≤ c.toNat && c.toNat ≤ 0x200A)

theorem isTrimmed_of_visible {c : Char} (h : 0x20 < c.toNat) (h' : c.toNat < 0x7F) :
    isTrimmed c = false := by
  simp only [isTrimmed, List.mem_cons, List.not_mem_nil, or_false, Bool.or_eq_false_iff,
    decide_eq_false_iff_not, Bool.and_eq_false_iff]
  omega

theorem isTrimmed_of_isAlphanum {c : Char} (h : c.isAlphanum = true) : isTrimmed c = false := by
  change (decide (65 ≤ c.val ∧ c.val ≤ 90) || (97 ≤ c.val && c.val ≤ 122) ||
    (48 ≤ c.val && c.val ≤ 57)) = true at h
  simp only [Bool.or_eq_true, Bool.and_eq_true, decide_eq_true_eq, UInt32.le_iff_toNat_le] at h
  have hrange : 48 ≤ c.toNat ∧ c.toNat ≤ 122 := by
    rcases h with (⟨h, h'⟩ | ⟨h, h'⟩) | ⟨h, h'⟩
    · exact ⟨le_trans (by decide) h, h'.trans (by decide)⟩
    · exact ⟨le_trans (by decide) h, h'⟩
    · exact ⟨h, h'.trans (by decide)⟩
  exact isTrimmed_of_visible (by omega) (by omega)

def isBlank (s : String) : Bool := s.toList.all isTrimmed

end ZoneweaverAgent
