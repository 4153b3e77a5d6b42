/-!
Maps from text, as lists in strictly increasing order of the keys. Code points order texts the same
way as their UTF-8 bytes do. Inserting keeps the order, and changes what is found under one key.
-/
namespace CadenceWire.TextMap

variable {α : Type}

/-- The keys increase strictly, so that each occurs once. -/
def Ordered (map : List (String × α)) : Prop := map.Pairwise fun a b => a.1 < b.1

/-- Puts a key in its place, where it replaces an equal one. -/
def insert (key : String) (value : α) : List (String × α) → List (String × α)
  | [] => [(key, value)]
  | (k, v) :: rest =>
    if key < k then (key, value) :: (k, v) :: rest
    else if key = k then (key, value) :: rest
    else (k, v) :: insert key value rest

/-- Of several values of one key the last is kept. -/
def ofList (pairs : List (String × α)) : List (String × α) :=
  pairs.foldl (fun map pair => insert pair.1 pair.2 map) []

theorem mem_insert {key : String} {value : α} {entry : String × α} {map : List (String × α)}
    (member : entry ∈ insert key value map) : entry = (key, value) ∨ entry ∈ map := by
  induction map with
  | nil => simpa [insert] using member
  | cons head rest ih =>
    obtain ⟨k, v⟩ := head
    simp only [insert] at member
    split at member
    · simpa using member
    · split at member
      · rcases List.mem_cons.1 member with found | found
        · exact .inl found
        · exact .inr (List.mem_cons_of_mem _ found)
      · rcases List.mem_cons.1 member with found | found
        · exact .inr (found ▸ List.mem_cons_self)
        · exact (ih found).imp id (List.mem_cons_of_mem _)

theorem ordered_insert {key : String} {value : α} {map : List (String × α)}
    (ordered : Ordered map) : Ordered (insert key value map) := by
  induction map with
  | nil => simp [insert, Ordered]
  | cons head rest ih =>
    obtain ⟨k, v⟩ := head
    obtain ⟨above, rest_ordered⟩ := List.pairwise_cons.1 ordered
    simp only [insert]
    split
    next less =>
      refine List.pairwise_cons.2 ⟨fun entry member => ?_, ordered⟩
      rcases List.mem_cons.1 member with rfl | inside
      · exact less
      · exact String.lt_trans less (above entry inside)
    next notLess =>
      split
      next same =>
        exact List.pairwise_cons.2 ⟨fun entry member => same ▸ above entry member, rest_ordered⟩
      next different =>
        refine List.pairwise_cons.2 ⟨fun entry member => ?_, ih rest_ordered⟩
        rcases mem_insert member with rfl | inside
        · exact String.not_le.1 fun le =>
            different (String.le_antisymm le (String.not_lt.1 notLess))
        · exact above entry inside

theorem ordered_ofList (pairs : List (String × α)) : Ordered (ofList pairs) := by
  have folded : ∀ map : List (String × α), Ordered map →
      Ordered (pairs.foldl (fun map pair => insert pair.1 pair.2 map) map) := by
    induction pairs with
    | nil => exact fun _ ordered => ordered
    | cons pair pairs ih => exact fun map ordered => ih _ (ordered_insert ordered)
  exact folded [] List.Pairwise.nil

theorem lookup_insert_self (key : String) (value : α) (map : List (String × α)) :
    (insert key value map).lookup key = some value := by
  induction map with
  | nil => simp [insert]
  | cons head rest ih =>
    obtain ⟨k, v⟩ := head
    simp only [insert]
    split
    · simp
    · split
      · simp
      next different => simp [List.lookup_cons, beq_eq_false_iff_ne.2 different, ih]

theorem lookup_insert_of_ne {key other : String} (different : other ≠ key) (value : α)
    (map : List (String × α)) : (insert key value map).lookup other = map.lookup other := by
  induction map with
  | nil => simp [insert, List.lookup_cons, beq_eq_false_iff_ne.2 different]
  | cons head rest ih =>
    obtain ⟨k, v⟩ := head
    simp only [insert]
    split
    · simp [List.lookup_cons, beq_eq_false_iff_ne.2 different]
    · split
      next same =>
        subst same
        simp [List.lookup_cons, beq_eq_false_iff_ne.2 different]
      next => simp [List.lookup_cons, ih]

theorem lookup_foldl_insert (key : String) (pairs map : List (String × α)) :
    (pairs.foldl (fun map pair => insert pair.1 pair.2 map) map).lookup key =
      (pairs.reverse ++ map).lookup key := by
  induction pairs generalizing map with
  | nil => rfl
  | cons pair pairs ih =>
    have inserted : (insert pair.1 pair.2 map).lookup key = (pair :: map).lookup key := by
      by_cases same : key = pair.1
      · rw [same, lookup_insert_self, List.lookup_cons_self]
      · rw [lookup_insert_of_ne same, List.lookup_cons, beq_eq_false_iff_ne.2 same]
    rw [List.foldl_cons, ih, List.reverse_cons, List.append_assoc, List.singleton_append,
      List.lookup_append, inserted, ← List.lookup_append]

/-- Under each key there is the last value that the list has for it. -/
theorem lookup_ofList (key : String) (pairs : List (String × α)) :
    (ofList pairs).lookup key = pairs.reverse.lookup key := by
  rw [ofList, lookup_foldl_insert, List.append_nil]

/-- Where keys differ, what stands beside a key is what is found under it. -/
theorem lookup_eq_some_iff_mem {key : String} {value : α} {pairs : List (String × α)}
    (distinct : pairs.Pairwise fun a b => a.1 ≠ b.1) :
    pairs.lookup key = some value ↔ (key, value) ∈ pairs := by
  induction pairs with
  | nil => simp
  | cons pair pairs ih =>
    obtain ⟨k, v⟩ := pair
    obtain ⟨other, rest⟩ := List.pairwise_cons.1 distinct
    rw [List.lookup_cons, List.mem_cons, Prod.mk.injEq]
    by_cases same : key = k
    · subst same
      have elsewhere : (key, value) ∉ pairs := fun member => other _ member rfl
      simp [elsewhere, eq_comm (a := v)]
    · rw [beq_eq_false_iff_ne.2 same, ih rest]
      simp [same]

theorem Ordered.distinct {map : List (String × α)} (ordered : Ordered map) :
    map.Pairwise fun a b => a.1 ≠ b.1 :=
  ordered.imp fun less => String.ne_of_lt less

/-- A list in which keys differ becomes a map of the same pairs. -/
theorem mem_ofList {key : String} {value : α} {pairs : List (String × α)}
    (distinct : pairs.Pairwise fun a b => a.1 ≠ b.1) :
    (key, value) ∈ ofList pairs ↔ (key, value) ∈ pairs := by
  have reversed : pairs.reverse.Pairwise fun a b => a.1 ≠ b.1 :=
    List.pairwise_reverse.2 (distinct.imp Ne.symm)
  rw [← lookup_eq_some_iff_mem (ordered_ofList pairs).distinct, lookup_ofList,
    lookup_eq_some_iff_mem reversed, List.mem_reverse]

/-- Whether or not keys differ, nothing is in a map that is not in the list. -/
theorem mem_of_mem_ofList {entry : String × α} {pairs : List (String × α)}
    (member : entry ∈ ofList pairs) : entry ∈ pairs := by
  have folded : ∀ map : List (String × α),
      entry ∈ pairs.foldl (fun map pair => insert pair.1 pair.2 map) map →
        entry ∈ pairs ∨ entry ∈ map := by
    clear member
    induction pairs with
    | nil => exact fun _ member => .inr member
    | cons pair pairs ih =>
      intro map member
      rcases ih _ member with found | found
      · exact .inl (List.mem_cons_of_mem _ found)
      · exact (mem_insert found).imp (fun same => List.mem_cons.2 (.inl same)) id
  exact (folded [] member).resolve_right List.not_mem_nil

theorem perm_ofList {pairs : List (String × α)} (distinct : pairs.Pairwise fun a b => a.1 ≠ b.1) :
    (ofList pairs).Perm pairs := by
  have once {map : List (String × α)} (apart : map.Pairwise fun a b => a.1 ≠ b.1) : map.Nodup :=
    apart.imp fun other same => other (congrArg Prod.fst same)
  have listed := once (ordered_ofList pairs).distinct
  exact (List.perm_ext_iff_of_nodup listed (once distinct)).2 fun _ => mem_ofList distinct

/-- There is just one map of the same pairs. -/
theorem Ordered.eq_of_perm {map other : List (String × α)} (ordered : Ordered map)
    (ordered' : Ordered other) (same : map.Perm other) : map = other := by
  refine same.eq_of_pairwise (fun a b _ _ less more => ?_) ordered ordered'
  exact absurd (String.lt_trans less more) (String.lt_irrefl _)

/-- Where keys differ, the order of the pairs does not matter. -/
theorem ofList_eq_of_perm {pairs others : List (String × α)} (same : pairs.Perm others)
    (distinct : pairs.Pairwise fun a b => a.1 ≠ b.1) : ofList pairs = ofList others := by
  have distinct' : others.Pairwise fun a b => a.1 ≠ b.1 := (same.pairwise_iff Ne.symm).1 distinct
  have listed : (ofList pairs).Perm (ofList others) :=
    (perm_ofList distinct).trans (same.trans (perm_ofList distinct').symm)
  exact (ordered_ofList pairs).eq_of_perm (ordered_ofList others) listed

end CadenceWire.TextMap
