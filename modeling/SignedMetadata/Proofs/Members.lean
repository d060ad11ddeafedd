import Mathlib.Data.List.Forall2
import Mathlib.Data.List.Induction
import Mathlib.Data.List.Nodup
import SignedMetadata.Members

/-
  Laws of members in ascending key order.

  Inserting keeps the order, adds one key, and keeps every
  other binding.  Members with distinct keys come out the same
  in whatever order they are inserted, and with repeated keys
  the last values count.  What relates the bindings of two
  member lists key by key is kept when both are extended
  alike.

  Main declarations:
    * `mem_keys_insert`
    * `ascending_insert`
    * `insert_perm`
    * `ofList_eq_of_perm`
    * `find?_insert_self`
    * `ofList_eq_iff`
    * `eq_of_fields`
    * `Paired`
    * `Paired.insert`
    * `Paired.exists_of_insert`
    * `appends_iff`
-/

namespace SignedMetadata

namespace Members

variable {α β γ : Type}

------------------------------------------------------------
-- Keys
------------------------------------------------------------

/- No members have no keys. -/
@[simp] theorem keys_nil :
    keys ([] : Members α) = [] := by
  rfl

/- The keys of members start with the first key. -/
@[simp] theorem keys_cons
    (m : String × α)
    (ms : Members α) :
    keys (m :: ms) = m.1 :: keys ms := by
  rfl

/- The keys of joined members are joined keys. -/
@[simp] theorem keys_append (ms ns : Members α) :
    keys (ms ++ ns) = keys ms ++ keys ns := by
  simp [keys]

/- Some member has a key exactly if it is among the keys. -/
theorem contains_iff
    {ms : Members α}
    {key : String} :
    contains ms key = true ↔ key ∈ keys ms := by
  simp only [contains, keys, List.any_eq_true, List.mem_map,
    decide_eq_true_eq]

/- No members are in ascending order. -/
@[simp] theorem ascending_nil :
    Ascending ([] : Members α) := by
  exact List.Pairwise.nil

/- Ascending members have their least key first. -/
theorem ascending_cons
    {m : String × α}
    {ms : Members α} :
    Ascending (m :: ms) ↔
      (∀ k ∈ keys ms, m.1 < k) ∧ Ascending ms := by
  simp [Ascending]

/- Ascending keys are distinct. -/
theorem nodup_keys_of_ascending
    {ms : Members α}
    (hAscending : Ascending ms) :
    (keys ms).Nodup := by
  apply List.Pairwise.imp _ hAscending
  intro k l hLess hEq
  rw [hEq] at hLess
  exact String.lt_irrefl l hLess

/- Of two distinct keys, one is less than the other. -/
theorem key_lt_of_not_lt
    {k l : String}
    (hLess : ¬ k < l)
    (hSame : k ≠ l) :
    l < k := by
  by_cases hGreater : l < k
  · exact hGreater
  · exact absurd (String.le_antisymm hGreater hLess) hSame

------------------------------------------------------------
-- Insertion
------------------------------------------------------------

/- Inserting adds one key. -/
theorem mem_keys_insert
    {key k : String}
    {value : α}
    {ms : Members α} :
    k ∈ keys (insert key value ms) ↔
      k = key ∨ k ∈ keys ms := by
  induction ms with
  | nil => simp [insert]
  | cons m ms ih =>
      rcases m with ⟨l, v⟩
      rw [insert]
      by_cases hLess : key < l
      · simp [hLess]
      · by_cases hSame : key = l
        · subst hSame
          simp
        · simp only [hLess, hSame, if_false, keys_cons,
            List.mem_cons, ih]
          tauto

/- What is bound was bound before, or is new. -/
theorem eq_or_mem_of_mem_insert
    {key : String}
    {value : α}
    {ms : Members α}
    {m : String × α}
    (hMember : m ∈ insert key value ms) :
    m = (key, value) ∨ m ∈ ms := by
  induction ms with
  | nil => exact Or.inl (List.mem_singleton.mp hMember)
  | cons n ms ih =>
      rcases n with ⟨l, v⟩
      rw [insert] at hMember
      split_ifs at hMember with hLess hSame
      · exact List.mem_cons.mp hMember
      · rcases List.mem_cons.mp hMember with hNew | hOld
        · exact Or.inl hNew
        · exact Or.inr (List.mem_cons_of_mem _ hOld)
      · rcases List.mem_cons.mp hMember with hHead | hTail
        · exact Or.inr (List.mem_cons.mpr (Or.inl hHead))
        · rcases ih hTail with hNew | hOld
          · exact Or.inl hNew
          · exact Or.inr (List.mem_cons_of_mem _ hOld)

/- What holds of all members and of a new one is kept. -/
theorem forall_mem_insert
    {P : String × α → Prop}
    {key : String}
    {value : α}
    {ms : Members α}
    (hMs : ∀ m ∈ ms, P m)
    (hNew : P (key, value)) :
    ∀ m ∈ insert key value ms, P m := by
  intro m hm
  rcases eq_or_mem_of_mem_insert hm with rfl | hm
  · exact hNew
  · exact hMs m hm

/- Inserting keeps ascending key order. -/
theorem ascending_insert
    {key : String}
    {value : α}
    {ms : Members α}
    (hAscending : Ascending ms) :
    Ascending (insert key value ms) := by
  induction ms with
  | nil => simp [insert, Ascending]
  | cons m ms ih =>
      rcases m with ⟨l, v⟩
      have hParts := ascending_cons.mp hAscending
      rw [insert]
      by_cases hLess : key < l
      · rw [if_pos hLess]
        apply ascending_cons.mpr
        refine ⟨?_, hAscending⟩
        intro k hk
        rw [keys_cons, List.mem_cons] at hk
        rcases hk with rfl | hk
        · exact hLess
        · exact String.lt_trans hLess (hParts.1 k hk)
      · rw [if_neg hLess]
        by_cases hSame : key = l
        · subst hSame
          rw [if_pos rfl]
          exact ascending_cons.mpr hParts
        · rw [if_neg hSame]
          apply ascending_cons.mpr
          refine ⟨?_, ih hParts.2⟩
          intro k hk
          rcases mem_keys_insert.mp hk with rfl | hk
          · exact key_lt_of_not_lt hLess hSame
          · exact hParts.1 k hk

/- A key greater than all others is appended. -/
theorem insert_eq_append
    {key : String}
    {value : α}
    {ms : Members α}
    (hGreater : ∀ k ∈ keys ms, k < key) :
    insert key value ms = ms ++ [(key, value)] := by
  induction ms with
  | nil => rfl
  | cons m ms ih =>
      rcases m with ⟨l, v⟩
      have hLess : l < key := hGreater l (by simp)
      have hSame : key ≠ l := by
        intro hEq
        rw [hEq] at hLess
        exact String.lt_irrefl l hLess
      rw [insert, if_neg (String.lt_asymm hLess),
        if_neg hSame,
        ih (fun k hk => hGreater k (by simp [hk]))]
      rfl

/- A new key is added to the members that are there. -/
theorem insert_perm
    {key : String}
    {value : α}
    {ms : Members α}
    (hNew : key ∉ keys ms) :
    (insert key value ms).Perm ((key, value) :: ms) := by
  induction ms with
  | nil => exact List.Perm.refl _
  | cons m ms ih =>
      rcases m with ⟨l, v⟩
      rw [keys_cons, List.mem_cons, not_or] at hNew
      rw [insert]
      by_cases hLess : key < l
      · rw [if_pos hLess]
      · rw [if_neg hLess, if_neg hNew.1]
        exact
          ((ih hNew.2).cons (l, v)).trans
            (List.Perm.swap (key, value) (l, v) ms)

------------------------------------------------------------
-- Ascending Members are Unique
------------------------------------------------------------

/- Ascending members are determined by their bindings. -/
theorem eq_of_perm_of_ascending
    {ms ns : Members α}
    (hMs : Ascending ms)
    (hNs : Ascending ns)
    (hPerm : ms.Perm ns) :
    ms = ns := by
  have hMs' : ms.Pairwise fun m n => m.1 < n.1 :=
    List.pairwise_map.mp hMs
  have hNs' : ns.Pairwise fun m n => m.1 < n.1 :=
    List.pairwise_map.mp hNs
  apply List.Perm.eq_of_pairwise _ hMs' hNs' hPerm
  intro m n _ _ hLess hGreater
  exact absurd hGreater (String.lt_asymm hLess)

/- Inserting pairs one after another keeps the order. -/
theorem ascending_foldl_insert
    {read : Members α}
    (pairs : List (String × α))
    (hAscending : Ascending read) :
    Ascending
      (pairs.foldl
        (fun members pair => insert pair.1 pair.2 members)
        read) := by
  induction pairs generalizing read with
  | nil => exact hAscending
  | cons pair pairs ih =>
      exact ih (ascending_insert hAscending)

/- Pairs inserted in order are in ascending key order. -/
theorem ascending_ofList (pairs : List (String × α)) :
    Ascending (ofList pairs) := by
  exact ascending_foldl_insert pairs ascending_nil

/- Inserting pairs with new keys keeps all bindings. -/
theorem foldl_insert_perm
    {read : Members α}
    {pairs : List (String × α)}
    (hNodup : (keys (read ++ pairs)).Nodup) :
    (pairs.foldl
      (fun members pair => insert pair.1 pair.2 members)
      read).Perm (read ++ pairs) := by
  induction pairs generalizing read with
  | nil => rw [List.append_nil, List.foldl_nil]
  | cons pair pairs ih =>
      rcases pair with ⟨key, value⟩
      have hMiddle :
          (read ++ (key, value) :: pairs).Perm
            ((key, value) :: read ++ pairs) :=
        List.perm_middle
      have hNodup' :
          (keys ((key, value) :: read ++ pairs)).Nodup :=
        (hMiddle.map Prod.fst).nodup_iff.mp hNodup
      have hNew : key ∉ keys read := by
        intro hMember
        rw [List.cons_append, keys_cons, List.nodup_cons,
          keys_append] at hNodup'
        exact hNodup'.1 (List.mem_append_left _ hMember)
      have hInsert :
          (insert key value read ++ pairs).Perm
            ((key, value) :: read ++ pairs) :=
        (insert_perm hNew).append_right pairs
      have hRest :=
        ih ((hInsert.map Prod.fst).nodup_iff.mpr hNodup')
      exact (hRest.trans hInsert).trans hMiddle.symm

/- Members come out in order, however they are inserted. -/
theorem ofList_eq_of_perm
    {ms : Members α}
    {pairs : List (String × α)}
    (hAscending : Ascending ms)
    (hPerm : pairs.Perm ms) :
    ofList pairs = ms := by
  have hNodup : (keys ([] ++ pairs)).Nodup :=
    (hPerm.map Prod.fst).nodup_iff.mpr
      (nodup_keys_of_ascending hAscending)
  apply eq_of_perm_of_ascending _ hAscending
  · exact (foldl_insert_perm hNodup).trans hPerm
  · exact ascending_ofList pairs

------------------------------------------------------------
-- Bindings
------------------------------------------------------------

/- A key is bound to nothing exactly if no member has it. -/
theorem find?_eq_none_iff
    {ms : Members α}
    {key : String} :
    find? ms key = none ↔ key ∉ keys ms := by
  rw [find?, List.lookup_eq_none_iff, keys, List.mem_map]
  constructor
  · rintro hOther ⟨m, hMember, hKey⟩
    exact bne_iff_ne.mp (hOther m hMember) hKey.symm
  · intro hOther m hMember
    apply bne_iff_ne.mpr
    intro hKey
    exact hOther ⟨m, hMember, hKey.symm⟩

/- A member is found under its key, if that is distinct. -/
theorem mem_iff_find?
    {ms : Members α}
    {key : String}
    {value : α}
    (hNodup : (keys ms).Nodup) :
    (key, value) ∈ ms ↔ find? ms key = some value := by
  induction ms with
  | nil => simp [find?]
  | cons m ms ih =>
      rcases m with ⟨l, v⟩
      rw [keys_cons, List.nodup_cons] at hNodup
      rw [List.mem_cons, find?, List.lookup_cons]
      by_cases hSame : key = l
      · subst hSame
        have hRest : (key, value) ∉ ms := by
          intro hMember
          exact
            hNodup.1 (List.mem_map.mpr ⟨_, hMember, rfl⟩)
        simp [hRest, eq_comm]
      · have hHead : (key, value) ≠ (l, v) := by
          intro hEq
          exact hSame (congrArg Prod.fst hEq)
        rw [beq_eq_false_iff_ne.mpr hSame,
          or_iff_right hHead]
        exact ih hNodup.2

/- Ascending members are equal if all their bindings are. -/
theorem eq_of_find?_eq
    {ms ns : Members α}
    (hMs : Ascending ms)
    (hNs : Ascending ns)
    (hFind : ∀ key, find? ms key = find? ns key) :
    ms = ns := by
  have hMs' := nodup_keys_of_ascending hMs
  have hNs' := nodup_keys_of_ascending hNs
  apply eq_of_perm_of_ascending hMs hNs
  apply
    (List.perm_ext_iff_of_nodup (List.Nodup.of_map _ hMs')
      (List.Nodup.of_map _ hNs')).mpr
  rintro ⟨key, value⟩
  rw [mem_iff_find? hMs', mem_iff_find? hNs', hFind]

/- A key is bound to what was inserted under it. -/
theorem find?_insert_self
    (ms : Members α)
    (key : String)
    (value : α) :
    find? (insert key value ms) key = some value := by
  induction ms with
  | nil => simp [insert, find?]
  | cons m ms ih =>
      rcases m with ⟨l, v⟩
      rw [insert]
      split_ifs with hLess hSame
      · exact List.lookup_cons_self
      · exact List.lookup_cons_self
      · rw [find?, List.lookup_cons,
          beq_eq_false_iff_ne.mpr hSame]
        exact ih

/- Inserting under one key keeps what others are bound to. -/
theorem find?_insert_of_ne
    (ms : Members α)
    {key other : String}
    (value : α)
    (hOther : other ≠ key) :
    find? (insert key value ms) other = find? ms other := by
  have hHead : (other == key) = false :=
    beq_eq_false_iff_ne.mpr hOther
  induction ms with
  | nil => simp [insert, find?, hOther]
  | cons m ms ih =>
      rcases m with ⟨l, v⟩
      rw [insert]
      split_ifs with hLess hSame
      · rw [find?, List.lookup_cons, hHead]
        rfl
      · subst hSame
        simp only [find?, List.lookup_cons, hHead]
      · simp only [find?, List.lookup_cons] at ih ⊢
        rw [ih]

/- Members that agree under a key agree after an insertion. -/
theorem find?_insert_congr
    {ms ns : Members α}
    {key other : String}
    {value last : α}
    (hNew : other = key → value = last)
    (hOld : other ≠ key → find? ms other = find? ns other) :
    find? (insert key value ms) other =
      find? (insert key last ns) other := by
  by_cases hKey : other = key
  · rw [hKey, find?_insert_self, find?_insert_self, hNew hKey]
  · rw [find?_insert_of_ne _ _ hKey,
      find?_insert_of_ne _ _ hKey, hOld hKey]

/- What pairs give for a key last. -/
def last?
    (pairs : List (String × α))
    (key : String) : Option α :=
  pairs.reverse.lookup key

/- They give nothing for a key that they do not have. -/
theorem last?_eq_none_iff
    {pairs : List (String × α)}
    {key : String} :
    last? pairs key = none ↔ key ∉ keys pairs := by
  rw [last?, ← find?, find?_eq_none_iff, keys,
    List.map_reverse, List.mem_reverse]
  rfl

/- Members that pairs build bind keys to what is given last. -/
theorem find?_ofList
    (pairs : List (String × α))
    (key : String) :
    find? (ofList pairs) key = last? pairs key := by
  induction pairs using List.reverseRecOn with
  | nil => rfl
  | append_singleton pairs pair ih =>
      have hInsert :
          ofList (pairs ++ [pair]) =
            insert pair.1 pair.2 (ofList pairs) :=
        List.foldl_append
      rw [hInsert, last?, List.reverse_append,
        List.reverse_singleton, List.singleton_append,
        List.lookup_cons]
      by_cases hKey : key = pair.1
      · rw [hKey, find?_insert_self, beq_self_eq_true]
      · rw [find?_insert_of_ne _ _ hKey,
          beq_eq_false_iff_ne.mpr hKey]
        exact ih

/- Pairs that give the same last build the same members. -/
theorem ofList_eq_iff
    {ps qs : List (String × α)} :
    ofList ps = ofList qs ↔
      ∀ key, last? ps key = last? qs key := by
  constructor
  · intro hSame key
    rw [← find?_ofList, ← find?_ofList, hSame]
  · intro hLast
    apply
      eq_of_find?_eq (ascending_ofList ps)
        (ascending_ofList qs)
    intro key
    rw [find?_ofList, find?_ofList, hLast]

/-
  Ascending members that bind every one of some fields, and
  no other key, are these fields.
-/
theorem eq_of_fields
    {ms fields : Members α}
    (hMs : Ascending ms)
    (hFields : Ascending fields)
    (hKeys : ∀ k ∈ keys ms, k ∈ keys fields)
    (hFind : ∀ m ∈ fields, find? ms m.1 = some m.2) :
    ms = fields := by
  apply eq_of_find?_eq hMs hFields
  intro key
  by_cases hKey : key ∈ keys fields
  · rcases List.mem_map.mp hKey with ⟨m, hMember, rfl⟩
    rw [hFind m hMember]
    exact
      ((mem_iff_find?
        (nodup_keys_of_ascending hFields)).mp hMember).symm
  · have hOther : key ∉ keys ms := by
      intro hMember
      exact hKey (hKeys key hMember)
    rw [find?_eq_none_iff.mpr hOther,
      find?_eq_none_iff.mpr hKey]

------------------------------------------------------------
-- Paired Members
------------------------------------------------------------

/-
  Two member lists have the same keys, and related bindings
  at the same places.
-/
def Paired
    (R : String → α → β → Prop) :
    Members α → Members β → Prop :=
  List.Forall₂ fun m n => m.1 = n.1 ∧ R m.1 m.2 n.2

namespace Paired

variable {R : String → α → β → Prop}
variable {ms : Members α} {ns : Members β}

/- Paired members have the same keys. -/
theorem keys_eq (hPaired : Paired R ms ns) :
    keys ms = keys ns := by
  induction hPaired with
  | nil => rfl
  | cons hHead _ ih =>
      rw [keys_cons, keys_cons, hHead.1, ih]

/- Members are paired alike by relations that agree. -/
theorem congr
    {S : String → α → β → Prop}
    (hAgree : ∀ m ∈ ms, ∀ b, R m.1 m.2 b ↔ S m.1 m.2 b) :
    Paired R ms ns ↔ Paired S ms ns := by
  induction ms generalizing ns with
  | nil =>
      unfold Paired
      rw [List.forall₂_nil_left_iff,
        List.forall₂_nil_left_iff]
  | cons m ms ih =>
      have hHead := hAgree m List.mem_cons_self
      have hTail :
          ∀ ns, Paired R ms ns ↔ Paired S ms ns := by
        intro ns
        exact ih fun n hn =>
          hAgree n (List.mem_cons_of_mem m hn)
      unfold Paired at hTail ⊢
      simp only [List.forall₂_cons_left_iff, hHead, hTail]

/- Both lists may be extended by related bindings. -/
theorem insert
    {key : String}
    {a : α}
    {b : β}
    (hPaired : Paired R ms ns)
    (hRelated : R key a b) :
    Paired R (Members.insert key a ms)
      (Members.insert key b ns) := by
  induction hPaired with
  | nil =>
      exact List.Forall₂.cons ⟨rfl, hRelated⟩
        List.Forall₂.nil
  | @cons m n ms ns hHead hTail ih =>
      rcases m with ⟨k, c⟩
      rcases n with ⟨l, d⟩
      rcases hHead with ⟨hKey, hBound⟩
      dsimp only at hKey hBound
      subst hKey
      rw [Members.insert, Members.insert]
      by_cases hLess : key < k
      · rw [if_pos hLess, if_pos hLess]
        exact
          List.Forall₂.cons ⟨rfl, hRelated⟩
            (List.Forall₂.cons ⟨rfl, hBound⟩ hTail)
      · rw [if_neg hLess, if_neg hLess]
        by_cases hSame : key = k
        · rw [if_pos hSame, if_pos hSame]
          exact List.Forall₂.cons ⟨rfl, hRelated⟩ hTail
        · rw [if_neg hSame, if_neg hSame]
          exact List.Forall₂.cons ⟨rfl, hBound⟩ ih

/- Members that are built from related pairs are paired. -/
theorem foldl_insert
    {as : Members α}
    {bs : Members β}
    (hPaired : Paired R ms ns)
    (hPairs : Paired R as bs) :
    Paired R
      (as.foldl
        (fun members m => Members.insert m.1 m.2 members)
        ms)
      (bs.foldl
        (fun members n => Members.insert n.1 n.2 members)
        ns) := by
  induction hPairs generalizing ms ns with
  | nil => exact hPaired
  | @cons m n as bs hHead _ ih =>
      rw [List.foldl_cons, List.foldl_cons, ← hHead.1]
      exact ih (hPaired.insert hHead.2)

/- What a new key is paired with is an extension, too. -/
theorem exists_of_insert
    {key : String}
    {a : α}
    {ns' : Members β}
    (hNew : key ∉ keys ms)
    (hPaired : Paired R (Members.insert key a ms) ns') :
    ∃ b ns, R key a b ∧ Paired R ms ns ∧
      Members.insert key b ns = ns' := by
  induction ms generalizing ns' with
  | nil =>
      cases hPaired with
      | @cons _ n _ _ hHead hTail =>
          rcases n with ⟨l, b⟩
          rcases hHead with ⟨rfl, hRelated⟩
          cases hTail
          exact ⟨b, [], hRelated, List.Forall₂.nil, rfl⟩
  | cons m ms ih =>
      rcases m with ⟨k, c⟩
      rw [keys_cons, List.mem_cons, not_or] at hNew
      rw [Members.insert] at hPaired
      by_cases hLess : key < k
      · rw [if_pos hLess] at hPaired
        cases hPaired with
        | @cons _ n _ ns hHead hTail =>
            rcases n with ⟨l, b⟩
            rcases hHead with ⟨rfl, hRelated⟩
            refine ⟨b, ns, hRelated, hTail, ?_⟩
            cases hTail with
            | @cons _ n _ ns hBound _ =>
                rcases n with ⟨l, d⟩
                rcases hBound with ⟨rfl, _⟩
                rw [Members.insert, if_pos hLess]
      · rw [if_neg hLess, if_neg hNew.1] at hPaired
        cases hPaired with
        | @cons _ n _ ns hHead hTail =>
            rcases n with ⟨l, d⟩
            rcases hHead with ⟨rfl, hBound⟩
            rcases ih hNew.2 hTail with
              ⟨b, ns, hRelated, hRest, rfl⟩
            refine ⟨b, (k, d) :: ns, hRelated, ?_, ?_⟩
            · exact List.Forall₂.cons ⟨rfl, hBound⟩ hRest
            · rw [Members.insert, if_neg hLess,
                if_neg hNew.1]

end Paired

/-
  A reader that binds one member after another to something
  related, if the key is new, appends what it binds members
  in ascending order to.
-/
theorem appends_iff
    {ε : Type}
    {R : String → α → β → Prop}
    {read :
      Members β → Members α → Except ε (Members β)}
    (hNil : ∀ before, read before [] = .ok before)
    (hCons :
      ∀ before m rest ns,
        m.1 ∉ keys before →
          (read before (m :: rest) = .ok ns ↔
            ∃ b, R m.1 m.2 b ∧
              read (Members.insert m.1 b before) rest =
                .ok ns))
    (before ns : Members β)
    {ms : Members α}
    (hAscending :
      (keys before ++ keys ms).Pairwise (· < ·)) :
    read before ms = .ok ns ↔
      ∃ rest, Paired R ms rest ∧ before ++ rest = ns := by
  induction ms generalizing before with
  | nil =>
      rw [hNil]
      simp [Paired]
  | cons m ms ih =>
      have hGreater : ∀ k ∈ keys before, k < m.1 := by
        intro k hk
        exact
          (List.pairwise_append.mp hAscending).2.2 k hk m.1
            (by simp)
      have hNew : m.1 ∉ keys before := by
        intro hKey
        exact String.lt_irrefl m.1 (hGreater m.1 hKey)
      have hTail :
          ∀ b,
            (keys (before ++ [(m.1, b)]) ++
              keys ms).Pairwise (· < ·) := by
        intro b
        simpa using hAscending
      rw [hCons before m ms ns hNew]
      constructor
      · rintro ⟨b, hHead, hRest⟩
        rw [insert_eq_append hGreater, ih _ (hTail b)]
          at hRest
        rcases hRest with ⟨rest, hRest, hNs⟩
        refine ⟨(m.1, b) :: rest, ?_, ?_⟩
        · exact List.Forall₂.cons ⟨rfl, hHead⟩ hRest
        · rw [← hNs, List.append_assoc,
            List.singleton_append]
      · rintro ⟨rest, hRest, hNs⟩
        cases hRest with
        | @cons _ n _ rest hHead hRest =>
            rcases n with ⟨l, b⟩
            rcases hHead with ⟨rfl, hHead⟩
            refine ⟨b, hHead, ?_⟩
            rw [insert_eq_append hGreater, ih _ (hTail b)]
            refine ⟨rest, hRest, ?_⟩
            rw [← hNs, List.append_assoc,
              List.singleton_append]

end Members

end SignedMetadata
