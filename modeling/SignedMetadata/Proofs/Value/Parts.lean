import SignedMetadata.Value

/-
  What holds of a mapping by what holds of its members.

  Depth, well-formedness and the keys that are bound do not
  depend on the order in which members are listed.  Which key
  is the first one does; in a well-formed mapping it is the
  least key.

  Main declarations:
    * `Avoids`
    * `NotFirst`
    * `depthMembers_perm`
    * `wellFormedMembers_iff`
    * `avoidsMembers_iff`
    * `notFirst_of_avoids`
-/

namespace SignedMetadata

namespace Value

------------------------------------------------------------
-- Keys
------------------------------------------------------------

mutual

/- No mapping in the value binds the key. -/
def Avoids (key : String) : Value → Prop
| .null => True
| .bool _ => True
| .integer _ => True
| .string _ => True
| .sequence items => AvoidsItems key items
| .mapping members => AvoidsMembers key members

/- No mapping in the elements binds the key. -/
def AvoidsItems (key : String) : List Value → Prop
| [] => True
| v :: vs => Avoids key v ∧ AvoidsItems key vs

/- No member has the key, and no value binds it. -/
def AvoidsMembers
    (key : String) : List (String × Value) → Prop
| [] => True
| (k, v) :: ms =>
    k ≠ key ∧ Avoids key v ∧ AvoidsMembers key ms

end

mutual

/- No mapping in the value has the key as its first one. -/
def NotFirst (key : String) : Value → Prop
| .null => True
| .bool _ => True
| .integer _ => True
| .string _ => True
| .sequence items => NotFirstItems key items
| .mapping members =>
    key ∉ (Members.keys members).head? ∧
      NotFirstMembers key members

/- No mapping in the elements has the key first. -/
def NotFirstItems (key : String) : List Value → Prop
| [] => True
| v :: vs => NotFirst key v ∧ NotFirstItems key vs

/- No mapping in the member values has the key first. -/
def NotFirstMembers
    (key : String) : List (String × Value) → Prop
| [] => True
| (_, v) :: ms => NotFirst key v ∧ NotFirstMembers key ms

end

mutual

/- A key that is never bound is never the first one. -/
theorem notFirst_of_avoids
    {key : String}
    (v : Value)
    (hAvoids : v.Avoids key) :
    v.NotFirst key := by
  cases v with
  | sequence items =>
      exact notFirstItems_of_avoids items hAvoids
  | mapping members =>
      exact notFirstMembers_of_avoids members hAvoids
  | _ => exact trivial

/- It is never the first one in elements. -/
theorem notFirstItems_of_avoids
    {key : String}
    (vs : List Value)
    (hAvoids : AvoidsItems key vs) :
    NotFirstItems key vs := by
  cases vs with
  | nil => exact trivial
  | cons v vs =>
      exact
        ⟨notFirst_of_avoids v hAvoids.1,
          notFirstItems_of_avoids vs hAvoids.2⟩

/- It is the first key neither here nor in member values. -/
theorem notFirstMembers_of_avoids
    {key : String}
    (ms : List (String × Value))
    (hAvoids : AvoidsMembers key ms) :
    key ∉ (Members.keys ms).head? ∧
      NotFirstMembers key ms := by
  cases ms with
  | nil => exact ⟨Option.not_mem_none key, trivial⟩
  | cons m ms =>
      have hRest :=
        notFirstMembers_of_avoids ms hAvoids.2.2
      have hHead :
          key ∉ (Members.keys (m :: ms)).head? := by
        intro hKey
        exact hAvoids.1 (Option.some.inj hKey)
      exact
        ⟨hHead, notFirst_of_avoids m.2 hAvoids.2.1, hRest.2⟩

end

------------------------------------------------------------
-- Members
------------------------------------------------------------

/- Members are well formed if every one of them is. -/
theorem wellFormedMembers_iff
    {ms : List (String × Value)} :
    WellFormedMembers ms ↔ ∀ m ∈ ms, m.2.WellFormed := by
  induction ms with
  | nil => simp [WellFormedMembers]
  | cons m ms ih =>
      rw [WellFormedMembers, ih, List.forall_mem_cons]

/- Elements are well formed if every one of them is. -/
theorem wellFormedItems_iff
    {vs : List Value} :
    WellFormedItems vs ↔ ∀ v ∈ vs, v.WellFormed := by
  induction vs with
  | nil => simp [WellFormedItems]
  | cons v vs ih =>
      rw [WellFormedItems, ih, List.forall_mem_cons]

/- Members avoid a key if every one of them does. -/
theorem avoidsMembers_iff
    {key : String}
    {ms : List (String × Value)} :
    AvoidsMembers key ms ↔
      ∀ m ∈ ms, m.1 ≠ key ∧ m.2.Avoids key := by
  induction ms with
  | nil => simp [AvoidsMembers]
  | cons m ms ih =>
      rw [AvoidsMembers, ih, List.forall_mem_cons, and_assoc]

/- Members nest within a bound if every one of them does. -/
theorem depthMembers_le_iff
    {n : Nat}
    {ms : List (String × Value)} :
    depthMembers ms ≤ n ↔ ∀ m ∈ ms, m.2.depth ≤ n := by
  induction ms with
  | nil => simp [depthMembers]
  | cons m ms ih =>
      rw [depthMembers, Nat.max_le, ih, List.forall_mem_cons]

/- Pairs in another order nest as deep. -/
theorem depthMembers_perm
    {pairs ms : List (String × Value)}
    (hOrder : pairs.Perm ms) :
    depthMembers pairs = depthMembers ms := by
  induction hOrder with
  | nil => rfl
  | cons m _ ih =>
      rw [depthMembers, depthMembers, ih]
  | swap m n ms =>
      simp only [depthMembers]
      omega
  | trans _ _ ihFirst ihSecond =>
      exact ihFirst.trans ihSecond

end Value

end SignedMetadata
