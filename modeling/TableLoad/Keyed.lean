namespace TableLoad

/-- Values under text keys, each key once and in ascending order. -/
structure Keyed (α : Type) where
  entries : List (String × α)
  ascending : entries.Pairwise (fun a b => a.1 < b.1)
deriving Repr

namespace Keyed

variable {α β : Type}

theorem ext {m n : Keyed α} (h : m.entries = n.entries) : m = n := by
  cases m; cases n; cases h; rfl

instance [DecidableEq α] : DecidableEq (Keyed α) := fun m n =>
  if h : m.entries = n.entries then isTrue (ext h) else isFalse fun e => h (e ▸ rfl)

/-- Puts a value into an ascending list, in the place of the one under the same key. -/
def insertEntry (k : String) (v : α) : List (String × α) → List (String × α)
  | [] => [(k, v)]
  | e :: es =>
    if k < e.1 then (k, v) :: e :: es
    else if k = e.1 then (k, v) :: es
    else e :: insertEntry k v es

theorem mem_insertEntry {k : String} {v : α} {es : List (String × α)} {e : String × α}
    (h : e ∈ insertEntry k v es) : e = (k, v) ∨ e ∈ es := by
  induction es with
  | nil => simpa [insertEntry] using h
  | cons d ds ih =>
    simp only [insertEntry] at h
    split at h
    · simpa using h
    · split at h
      · rcases List.mem_cons.mp h with h | h
        · exact Or.inl h
        · exact Or.inr (List.mem_cons_of_mem _ h)
      · rcases List.mem_cons.mp h with h | h
        · exact Or.inr (h ▸ List.mem_cons_self)
        · exact (ih h).imp_right (List.mem_cons_of_mem _)

theorem lt_of_not_lt_of_ne {a b : String} (h : ¬ a < b) (hne : a ≠ b) : b < a :=
  Decidable.byContradiction fun h' =>
    hne (String.le_antisymm (String.not_lt.mp h') (String.not_lt.mp h))

theorem insertEntry_ascending (k : String) (v : α) {es : List (String × α)}
    (h : es.Pairwise (fun a b => a.1 < b.1)) :
    (insertEntry k v es).Pairwise (fun a b => a.1 < b.1) := by
  induction es with
  | nil => simp [insertEntry]
  | cons e es ih =>
    obtain ⟨he, hes⟩ := List.pairwise_cons.mp h
    simp only [insertEntry]
    split
    · rename_i hk
      refine List.pairwise_cons.mpr ⟨fun d hd => ?_, h⟩
      rcases List.mem_cons.mp hd with rfl | hd
      · exact hk
      · exact String.lt_trans hk (he d hd)
    · split
      · rename_i _ hk
        exact List.pairwise_cons.mpr ⟨fun d hd => hk ▸ he d hd, hes⟩
      · rename_i hlt hne
        refine List.pairwise_cons.mpr ⟨fun d hd => ?_, ih hes⟩
        rcases mem_insertEntry hd with rfl | hd
        · exact lt_of_not_lt_of_ne hlt hne
        · exact he d hd

def empty : Keyed α :=
  ⟨[], List.Pairwise.nil⟩

instance : Inhabited (Keyed α) := ⟨empty⟩

/-- Puts a value under a key, in the place of the one that was there. -/
def insert (m : Keyed α) (k : String) (v : α) : Keyed α :=
  ⟨insertEntry k v m.entries, insertEntry_ascending k v m.ascending⟩

/-- The value under a key. -/
def find? (m : Keyed α) (k : String) : Option α :=
  (m.entries.find? (·.1 == k)).map (·.2)

/-- Of two values under one key the later one stays. -/
def ofList (es : List (String × α)) : Keyed α :=
  es.foldl (fun m e => m.insert e.1 e.2) empty

def isEmpty (m : Keyed α) : Bool :=
  m.entries.isEmpty

def size (m : Keyed α) : Nat :=
  m.entries.length

def keys (m : Keyed α) : List String :=
  m.entries.map (·.1)

/-- Every value changed by a function of its key and itself. -/
def map (f : String → α → β) (m : Keyed α) : Keyed β :=
  ⟨m.entries.map fun e => (e.1, f e.1 e.2), List.pairwise_map.mpr m.ascending⟩

theorem find?_insert_self (m : Keyed α) (k : String) (v : α) :
    (m.insert k v).find? k = some v := by
  obtain ⟨es, h⟩ := m
  simp only [insert, find?]
  induction es with
  | nil => simp [insertEntry]
  | cons e es ih =>
    simp only [insertEntry]
    split
    · simp
    · split
      · simp
      · rename_i _ hne
        have : (e.1 == k) = false := by simpa using Ne.symm hne
        simpa [this] using ih (List.pairwise_cons.mp h).2

theorem find?_insert_of_ne (m : Keyed α) {k l : String} (v : α) (hne : l ≠ k) :
    (m.insert k v).find? l = m.find? l := by
  obtain ⟨es, h⟩ := m
  simp only [insert, find?]
  have hkl : (k == l) = false := by simpa using Ne.symm hne
  induction es with
  | nil => simp [insertEntry, hkl]
  | cons e es ih =>
    simp only [insertEntry]
    split
    · simp [hkl]
    · split
      · rename_i _ he
        simp [hkl, ← he]
      · have := ih (List.pairwise_cons.mp h).2
        simp only [List.find?_cons]
        split
        · rfl
        · exact this

end Keyed

end TableLoad
