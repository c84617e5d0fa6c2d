/-!
# Tables of named things

A table binds names to values, at most one to a name. It is a list of bindings, the
latest first, and binding a name again removes what was bound before. Whoever
removes a binding is told what it was, because values hold handles to frames and
somebody has to give those up.
-/

namespace CallPath

/-- Names bound to values. -/
structure Table (α : Type) where
  entries : List (String × α) := []

namespace Table

variable {α : Type}

def find? (t : Table α) (name : String) : Option α := t.entries.lookup name

def erase (t : Table α) (name : String) : Table α :=
  { entries := t.entries.filter (fun entry => entry.1 != name) }

/-- The table with a name bound to a value. -/
def insert (t : Table α) (name : String) (value : α) : Table α :=
  { entries := (name, value) :: (t.erase name).entries }

def values (t : Table α) : List α := t.entries.map Prod.snd

theorem lookup_cons_of_ne {name key : String} (h : key ≠ name) (value : α)
    (entries : List (String × α)) :
    ((key, value) :: entries).lookup name = entries.lookup name := by
  have : (name == key) = false := by simpa using fun e : name = key => h e.symm
  rw [List.lookup_cons, this]

theorem find?_erase (t : Table α) (name other : String) :
    (t.erase name).find? other = if name = other then none else t.find? other := by
  obtain ⟨entries⟩ := t
  simp only [erase, find?]
  induction entries with
  | nil => simp
  | cons entry rest ih =>
      obtain ⟨key, value⟩ := entry
      by_cases hk : key = name
      · rw [List.filter_cons_of_neg (by simp [hk]), ih]
        split
        · rfl
        · rename_i ho
          rw [lookup_cons_of_ne (fun e => ho (hk ▸ e))]
      · rw [List.filter_cons_of_pos (by simp [hk])]
        by_cases ho : key = other
        · rw [← ho, List.lookup_cons_self, List.lookup_cons_self, if_neg (fun e => hk e.symm)]
        · rw [lookup_cons_of_ne ho, lookup_cons_of_ne ho, ih]

theorem find?_insert (t : Table α) (name other : String) (value : α) :
    (t.insert name value).find? other = if name = other then some value else t.find? other := by
  unfold insert find?
  by_cases h : name = other
  · rw [if_pos h, h, List.lookup_cons_self]
  · rw [if_neg h, lookup_cons_of_ne h]
    have erased := find?_erase t name other
    rwa [if_neg h] at erased

/-! ## At most one value to a name -/

def Distinct (t : Table α) : Prop := (t.entries.map Prod.fst).Nodup

theorem distinct_empty : ({} : Table α).Distinct := List.nodup_nil

theorem Distinct.erase {t : Table α} (h : t.Distinct) (name : String) : (t.erase name).Distinct :=
  h.sublist (List.Sublist.map _ List.filter_sublist)

theorem Distinct.insert {t : Table α} (h : t.Distinct) (name : String) (value : α) :
    (t.insert name value).Distinct := by
  refine List.nodup_cons.mpr ⟨?_, h.erase name⟩
  intro bound
  obtain ⟨entry, he, same⟩ := List.mem_map.mp bound
  have other := (List.mem_filter.mp he).2
  rw [same, bne_self_eq_false] at other
  cases other

theorem values_insert (t : Table α) (name : String) (value : α) :
    (t.insert name value).values = value :: (t.erase name).values := rfl

theorem mem_values_of_find? {t : Table α} {name : String} {value : α}
    (h : t.find? name = some value) : value ∈ t.values := by
  obtain ⟨entries⟩ := t
  induction entries with
  | nil => cases h
  | cons entry rest ih =>
      obtain ⟨key, first⟩ := entry
      by_cases hk : key = name
      · rw [find?, hk, List.lookup_cons_self] at h
        cases h
        exact List.mem_cons_self
      · rw [find?, lookup_cons_of_ne hk] at h
        exact List.mem_cons_of_mem _ (ih h)

/-- What is in a table is what a name is bound to, and what is left without that name. -/
theorem Distinct.perm_values {t : Table α} (h : t.Distinct) (name : String) :
    t.values.Perm ((t.find? name).toList ++ (t.erase name).values) := by
  obtain ⟨entries⟩ := t
  induction entries with
  | nil => exact .nil
  | cons entry rest ih =>
      obtain ⟨key, value⟩ := entry
      obtain ⟨fresh, distinct⟩ := List.nodup_cons.mp h
      have later := ih distinct
      unfold find? Table.erase values at later ⊢
      by_cases hk : key = name
      · -- no later entry goes by this name
        have kept : rest.filter (fun entry => entry.1 != name) = rest := by
          refine List.filter_eq_self.mpr (fun entry he => ?_)
          have bound : entry.1 ∈ rest.map Prod.fst := List.mem_map_of_mem he
          have other : entry.1 ≠ name := by
            rintro rfl
            exact fresh (hk ▸ bound)
          simpa using other
        rw [List.filter_cons_of_neg (by simp [hk]), kept, hk, List.lookup_cons_self]
        exact List.Perm.refl _
      · rw [List.filter_cons_of_pos (by simp [hk]), lookup_cons_of_ne hk]
        exact List.perm_cons_append_cons value later

/-- Tables that bind every name alike hold the same values. -/
theorem Distinct.perm_of_find? {t u : Table α} (ht : t.Distinct) (hu : u.Distinct)
    (same : ∀ name, t.find? name = u.find? name) : t.values.Perm u.values := by
  obtain ⟨entries⟩ := t
  induction entries generalizing u with
  | nil =>
      obtain ⟨_ | ⟨⟨key, value⟩, rest⟩⟩ := u
      · exact .nil
      · have bound := same key
        rw [find?, find?, List.lookup_cons_self] at bound
        cases bound
  | cons entry rest ih =>
      obtain ⟨key, value⟩ := entry
      obtain ⟨fresh, distinct⟩ := List.nodup_cons.mp ht
      have found : u.find? key = some value := (same key).symm.trans List.lookup_cons_self
      have unbound : Table.find? ⟨rest⟩ key = none :=
        List.lookup_eq_none_iff.mpr (fun entry he =>
          bne_iff_ne.mpr (fun same => fresh (List.mem_map.mpr ⟨entry, he, same.symm⟩)))
      have later := ih (hu.erase key) distinct (fun name => by
        rw [find?_erase]
        by_cases hk : key = name
        · rw [if_pos hk, ← hk, unbound]
        · rw [if_neg hk, ← same name]
          exact (lookup_cons_of_ne hk value rest).symm)
      have there := hu.perm_values key
      rw [found] at there
      exact (later.cons value).trans there.symm

end Table

end CallPath
