/-!
# Finite tables

A table remembers the last value written under each key. Later entries stand before earlier ones, so
a look-up that stops at the first match sees the latest.
-/

namespace Linkage

structure Table (κ α : Type) where
  entries : List (κ × α) := []
  deriving Repr, Inhabited

namespace Table

variable {κ α : Type}

def empty : Table κ α := {}

variable [DecidableEq κ]

def get? (t : Table κ α) (k : κ) : Option α :=
  (t.entries.find? fun entry => entry.1 = k).map Prod.snd

def insert (t : Table κ α) (k : κ) (a : α) : Table κ α := ⟨(k, a) :: t.entries⟩

def erase (t : Table κ α) (k : κ) : Table κ α := ⟨t.entries.filter fun entry => entry.1 ≠ k⟩

def contains (t : Table κ α) (k : κ) : Bool := (t.get? k).isSome

/-- The keys that have a value, each once, the one written last in front. -/
def keys (t : Table κ α) : List κ := (t.entries.map Prod.fst).eraseDups

/-- The keys with their values, each key once. -/
def bindings (t : Table κ α) : List (κ × α) :=
  t.keys.filterMap fun k => (t.get? k).map (k, ·)

@[simp] theorem get?_empty (k : κ) : (empty : Table κ α).get? k = none := rfl

@[simp] theorem get?_insert_self (t : Table κ α) (k : κ) (a : α) :
    (t.insert k a).get? k = some a := by
  simp [get?, insert]

theorem get?_insert (t : Table κ α) (k : κ) (a : α) (k' : κ) :
    (t.insert k a).get? k' = if k = k' then some a else t.get? k' := by
  by_cases h : k = k' <;> simp [get?, insert, h]

theorem get?_insert_of_ne (t : Table κ α) {k k' : κ} (a : α) (h : k ≠ k') :
    (t.insert k a).get? k' = t.get? k' := by
  simp [get?_insert, h]

/-- What is true of all entries is true of them after one more is written. -/
theorem forall_insert {P : κ → α → Prop} {t : Table κ α} (h : ∀ k a, t.get? k = some a → P k a) {k : κ} {a : α}
    (ha : P k a) (k' : κ) (a' : α) (hget : (t.insert k a).get? k' = some a') : P k' a' := by
  rw [get?_insert] at hget
  split at hget
  · rename_i heq
    subst heq
    exact Option.some.inj hget ▸ ha
  · exact h k' a' hget

theorem mem_entries_of_get? {t : Table κ α} {k : κ} {a : α} (h : t.get? k = some a) : (k, a) ∈ t.entries := by
  obtain ⟨entry, hentry, rfl⟩ := Option.map_eq_some_iff.1 h
  have hkey : entry.1 = k := by simpa using List.find?_some hentry
  exact hkey ▸ List.mem_of_find?_eq_some hentry

theorem mem_keys_of_get? {t : Table κ α} {k : κ} {a : α} (h : t.get? k = some a) : k ∈ t.keys := by
  rw [keys, List.mem_eraseDups]
  exact List.mem_map.2 ⟨(k, a), mem_entries_of_get? h, rfl⟩

theorem get?_erase (t : Table κ α) (k k' : κ) :
    (t.erase k).get? k' = if k = k' then none else t.get? k' := by
  obtain ⟨entries⟩ := t
  by_cases h : k = k'
  · subst h
    simp [get?, erase, List.find?_eq_none]
  · simp only [get?, erase, h, if_false, List.find?_filter]
    congr 2
    funext entry
    by_cases hk : entry.1 = k'
    · simp [hk, Ne.symm h]
    · simp [hk]

end Table

end Linkage
