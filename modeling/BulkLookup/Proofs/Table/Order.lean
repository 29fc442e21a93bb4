import BulkLookup.Proofs.Table.Refinement

/-!
# Chains keep the order in which entries were stored

After any history, the entries of a table can be put into one row in such a way that every chain is
the part of the row that belongs into its bucket. In this row, entries stand in the order of the
operations that first stored them: at whatever moment of the past one cuts the history, those whose
keys have been there without a break since then come before those whose keys came, or came back,
later. Changing a value moves no entry, and neither does any growth in between.

Hence no access goes wrong: every link that an operation follows leads to a live entry, every walk
ends, and every bucket out of which an entry is taken counts at least one.

## Main definitions

* `PairList.keys`, `PairList.StaysSince` — the keys of a list, and those that are always there
* `Table.StaysSince` — the keys that a table has had all along
* `Table.SafeFor` — every access that an operation on a key makes hits what it is meant for

## Main results

* `PairList.keys_run` — the keys that stay come first
* `Table.Lists.safeFor` — a table with rows is safe for every key
* `Table.chains_eq_rows` — chains after a history
-/

namespace BulkLookup

variable {κ ν : Type}

namespace PairList

variable [BEq κ] {l : PairList κ ν} {key : κ}

/-- The keys in a list, in order. -/
def keys (l : PairList κ ν) : List κ := l.pairs.map Prod.fst

/-- Whether a key has a pair in a list and after every operation of a history from there on. -/
def StaysSince (l : PairList κ ν) (future : List (Operation κ ν)) (key : κ) : Prop :=
  ∀ n ≤ future.length, ((l.run (future.take n)).find? key).isSome = true

theorem keys_mapValue (l : PairList κ ν) (key : κ) (f : ν → ν) :
    (l.mapValue key f).keys = l.keys := by
  rw [keys, keys, mapValue, List.map_map]
  congr 1
  funext pair
  rw [Function.comp_apply]
  split <;> rfl

omit [BEq κ] in
theorem keys_append (l : PairList κ ν) (pair : κ × ν) :
    (l.append pair).keys = l.keys ++ [pair.1] := by
  rw [keys, append, List.map_append, List.map_singleton, keys]

theorem keys_erase_sublist (l : PairList κ ν) (key : κ) : (l.erase key).keys.Sublist l.keys :=
  List.eraseP_sublist.map Prod.fst

/-- An operation takes keys out, or else adds one at the end that had no pair. -/
theorem keys_perform (l : PairList κ ν) (operation : Operation κ ν) :
    (l.perform operation).2.keys.Sublist l.keys ∨
      ∃ key, (l.perform operation).2.keys = l.keys ++ [key] ∧ l.find? key = none := by
  cases operation with
  | insert key value change =>
    simp only [perform]
    split
    · exact .inl (by rw [keys_mapValue])
    · next hnone => exact .inr ⟨key, keys_append l _, hnone⟩
  | update key value change =>
    simp only [perform]
    split
    · exact .inl (by rw [keys_mapValue])
    · next hnone => exact .inr ⟨key, keys_append l _, hnone⟩
  | remove key => exact .inl (keys_erase_sublist l key)
  | modify key change => exact .inl (by rw [perform, keys_mapValue])
  | _ => exact .inl (List.Sublist.refl _)

/-- A key in the list has a pair. -/
theorem isSome_find?_of_mem [ReflBEq κ] (hmem : key ∈ l.keys) : (l.find? key).isSome = true := by
  obtain ⟨pair, hpair, rfl⟩ := List.mem_map.1 hmem
  rw [find?, List.find?_isSome]
  refine ⟨pair, hpair, ?_⟩
  rw [isFor, beq_self_eq_true, beq_self_eq_true]
  rfl

theorem run_append (l : PairList κ ν) (past future : List (Operation κ ν)) :
    l.run (past ++ future) = (l.run past).run future :=
  List.foldl_append

theorem run_concat (l : PairList κ ν) (history : List (Operation κ ν))
    (operation : Operation κ ν) :
    l.run (history ++ [operation]) = ((l.run history).perform operation).2 :=
  run_append l history [operation]

/-- A key stays through one more operation if it is there afterwards. -/
theorem StaysSince.concat {future : List (Operation κ ν)} {operation : Operation κ ν}
    (h : l.StaysSince future key)
    (hafter : ((l.run (future ++ [operation])).find? key).isSome = true) :
    l.StaysSince (future ++ [operation]) key := by
  intro n hn
  rw [List.length_append, List.length_singleton] at hn
  rcases Nat.lt_or_ge future.length n with hlt | hle
  · obtain rfl : n = future.length + 1 := by omega
    rwa [List.take_of_length_le (by rw [List.length_append, List.length_singleton])]
  · rw [List.take_append_of_le_length hle]
    exact h n hle

/-- A key that was missing once does not stay through a longer history either. -/
theorem not_staysSince_concat {future : List (Operation κ ν)} (operation : Operation κ ν)
    (h : ¬ l.StaysSince future key) : ¬ l.StaysSince (future ++ [operation]) key := by
  intro hstays
  apply h
  intro n hn
  have hthen := hstays n (by rw [List.length_append]; omega)
  rwa [List.take_append_of_le_length hn] at hthen

/-- The keys after a history: first those that have been there all along, then those that came, or
came back, later. -/
theorem keys_run [ReflBEq κ] (l : PairList κ ν) (future : List (Operation κ ν)) :
    ∃ old new, (l.run future).keys = old ++ new ∧ (∀ key ∈ old, l.StaysSince future key) ∧
      ∀ key ∈ new, ¬ l.StaysSince future key := by
  -- The induction goes along the history, for each operation changes the keys at its own moment.
  induction future using List.reverseRecOn with
  | nil =>
    refine ⟨l.keys, [], (List.append_nil _).symm, fun key hmem n _ => ?_, by simp⟩
    rw [List.take_nil]
    exact isSome_find?_of_mem hmem
  | append_singleton future operation ih =>
    obtain ⟨old, new, heq, hold, hnew⟩ := ih
    rcases keys_perform (l.run future) operation with hsublist | ⟨key, hkeys, hnone⟩
    -- Some keys were taken out: those that are left come in the same two parts.
    · rw [heq] at hsublist
      obtain ⟨old', new', heq', hold', hnew'⟩ := List.sublist_append_iff.1 hsublist
      refine ⟨old', new', by rw [run_concat, heq'], fun key hmem => ?_, fun key hmem => ?_⟩
      · apply (hold key (hold'.subset hmem)).concat
        rw [run_concat]
        apply isSome_find?_of_mem
        rw [heq']
        exact List.mem_append_left new' hmem
      · exact not_staysSince_concat operation (hnew key (hnew'.subset hmem))
    -- A key was added at the end: it joins those that came later.
    · refine ⟨old, new ++ [key], ?_, fun key' hmem => ?_, fun key' hmem => ?_⟩
      · rw [run_concat, hkeys, heq, List.append_assoc]
      · apply (hold key' hmem).concat
        rw [run_concat]
        apply isSome_find?_of_mem
        rw [hkeys, heq, List.append_assoc]
        exact List.mem_append_left _ hmem
      · rcases List.mem_append.1 hmem with hmem | hmem
        · exact not_staysSince_concat operation (hnew key' hmem)
        · -- Just before the last operation, the key had no pair.
          apply not_staysSince_concat
          intro hstays
          have hthen := hstays future.length (Nat.le_refl _)
          rw [List.take_length, List.mem_singleton.1 hmem, hnone] at hthen
          cases hthen

end PairList

namespace Table

section AnyStorage

variable [Storage]

/-! ### The order of rows -/

variable [BEq κ] {t : Table κ ν} {rows : List (Row κ ν)}

theorem run_append (t : Table κ ν) (past future : List (Operation κ ν)) :
    t.run (past ++ future) = (t.run past).run future :=
  List.foldl_append

/-- Whether a key is in a table and stays there through every operation of a history. -/
def StaysSince (t : Table κ ν) (future : List (Operation κ ν)) (key : κ) : Prop :=
  ∀ n ≤ future.length, (t.run (future.take n)).contains key = true

namespace Represents

variable [PartialEquivBEq κ] {l : PairList κ ν}

theorem staysSince_iff (h : t.Represents l rows) (future : List (Operation κ ν)) (key : κ) :
    t.StaysSince future key ↔ l.StaysSince future key := by
  refine forall_congr' fun n => forall_congr' fun _ => ?_
  obtain ⟨-, rows', h'⟩ := h.run (future.take n)
  rw [h'.contains_eq]

end Represents

/-- The rows after a history: first those whose keys have been there all along, then the others. -/
theorem Represents.rows_run [EquivBEq κ] {l : PairList κ ν} {rows' : List (Row κ ν)}
    {future : List (Operation κ ν)} (h : t.Represents l rows)
    (h' : (t.run future).Represents (l.run future) rows') :
    ∃ old new, rows' = old ++ new ∧ (∀ row ∈ old, t.StaysSince future row.pair.1) ∧
      ∀ row ∈ new, ¬ t.StaysSince future row.pair.1 := by
  obtain ⟨old, new, heq, hold, hnew⟩ := l.keys_run future
  rw [PairList.keys, h'.pairs_eq, List.map_map] at heq
  obtain ⟨old', new', rfl, rfl, rfl⟩ := List.map_eq_append_iff.1 heq
  refine ⟨old', new', rfl, fun row hmem => ?_, fun row hmem => ?_⟩
  · rw [h.staysSince_iff]
    exact hold _ (List.mem_map_of_mem hmem)
  · rw [h.staysSince_iff]
    exact hnew _ (List.mem_map_of_mem hmem)

/-! ### Chains and rows -/

/-- The links from a bucket lead through the rows whose hashes leave its number as remainder, and
the bucket counts them. -/
theorem Lists.path_filter (h : t.Lists rows) {i : Nat} (hi : i < t.capacity) :
    ∃ b nodes, t.buckets[i]? = some b ∧ t.arena.Path b.first nodes ∧ b.length = nodes.length ∧
      nodes = (rows.filter fun row =>
        (t.hasher row.pair.1).toNat % t.capacity == i).map Row.node := by
  obtain ⟨b, hb⟩ := exists_bucket hi
  obtain ⟨hpath, hlength⟩ := h.wellFormed.path_chain i b hb
  refine ⟨b, t.chain i, hb, hpath, hlength, ?_⟩
  rw [h.chain_eq i hi, share]
  simp only [homeIndex_eq_mod h.wellFormed.capacity_isPowerOfTwo]

/-! ### Accesses -/

/-- Every access that an operation on a key makes to a bucket or through a link hits what it is
meant for. -/
structure SafeFor (t : Table κ ν) (key : κ) : Prop where
  /-- The bucket of the key is there. -/
  homeIndex_lt : homeIndex t.capacity (t.hasher key) < t.capacity
  /-- The walk along its chain follows live links only, reads no more entries than there are, and
  ends. -/
  search_ends : ∃ stop, t.search (t.hasher key) key = .ok stop
  /-- Of an entry that was found, its handle is live, and so is that of another entry before it; its
  bucket is there and counts it. -/
  found : ∀ before node e, t.search (t.hasher key) key = .ok (.found before node e) →
    t.arena.get? node = some e ∧
    (∀ previous, before = some previous →
      previous ≠ node ∧ (t.arena.get? previous).isSome = true) ∧
    ∃ b, t.buckets[homeIndex t.capacity e.hash]? = some b ∧ 0 < b.length
  /-- Of a chain that ended, the handle of the last entry is live. A new entry can be hung behind
  it: growing meets no dead link, and the new pair can be read at its place. -/
  missing : ∀ tail, t.search (t.hasher key) key = .ok (.missing tail) →
    (∀ last, tail = some last → (t.arena.get? last).isSome = true) ∧
    ∀ value, ∃ p, t.place (t.hasher key) tail key value = .ok p ∧ p.stored? = some (key, value)

/-- A table with rows is safe for every key. -/
theorem Lists.safeFor [PartialEquivBEq κ] (h : t.Lists rows) (key : κ) : t.SafeFor key := by
  have ht := h.wellFormed
  constructor
  · exact ht.homeIndex_lt_capacity _
  · exact ht.exists_search _ key
  · intro before node e hfound
    rcases h.search_cases key with
      ⟨before', row, after', e', earlier, later, -, -, -, hget, -, hchain, hsearch⟩ | ⟨-, hsearch⟩
    · cases hsearch.symm.trans hfound
      have hhome := ht.homeIndex_lt_capacity e.hash
      refine ⟨hget, fun previous => ht.ne_and_isSome_get?_of_getLast? hhome hchain, ?_⟩
      -- The bucket counts the entries of its chain, and the one found is among them.
      obtain ⟨b, hb⟩ := exists_bucket hhome
      refine ⟨b, hb, ?_⟩
      rw [(ht.path_chain _ b hb).2, hchain]
      exact List.length_pos_of_mem (List.mem_append_right earlier List.mem_cons_self)
    · cases hsearch.symm.trans hfound
  · intro tail hmissing
    obtain ⟨rfl, hnone⟩ := ht.of_search_eq_missing hmissing
    exact ⟨ht.isSome_get?_of_getLast? _, ht.exists_place hnone⟩

/-! ### After a history -/

/-- The table after a history has rows: they are its live entries, which keep the hashes of their
keys, and no two of which match; they are the pairs that the plain list holds, in the order of the
operations that first stored them; and every chain is the part of them that belongs into its bucket.
From there on, every access is safe. -/
theorem chains_eq_rows [EquivBEq κ] {hasher : κ → UInt64} {t₀ : Table κ ν} (h₀ : t₀.IsFresh hasher)
    (history : List (Operation κ ν)) :
    ∃ rows : List (Row κ ν), (rows.map Row.node).Nodup ∧
      (∀ node e, (t₀.run history).arena.get? node = some e →
        ⟨node, e.key, e.value⟩ ∈ rows ∧ e.hash = hasher e.key) ∧
      (∀ row ∈ rows, ∃ e, (t₀.run history).arena.get? row.node = some e ∧
        (e.key, e.value) = row.pair) ∧
      (∀ row ∈ rows, ∀ row' ∈ rows, hasher row.pair.1 = hasher row'.pair.1 →
        (row.pair.1 == row'.pair.1) = true → row = row') ∧
      rows.map Row.pair = ((PairList.empty hasher).run history).pairs ∧
      (∀ past future, history = past ++ future → ∃ old new, rows = old ++ new ∧
        (∀ row ∈ old, (t₀.run past).StaysSince future row.pair.1) ∧
        ∀ row ∈ new, ¬ (t₀.run past).StaysSince future row.pair.1) ∧
      (∀ i < (t₀.run history).capacity, ∃ b nodes, (t₀.run history).buckets[i]? = some b ∧
        (t₀.run history).arena.Path b.first nodes ∧ b.length = nodes.length ∧
        nodes = (rows.filter fun row =>
          (hasher row.pair.1).toNat % (t₀.run history).capacity == i).map Row.node) ∧
      ∀ key, (t₀.run history).SafeFor key := by
  obtain ⟨-, rows, h⟩ := h₀.represents.run history
  have hhasher : (t₀.run history).hasher = hasher := by
    rw [← h.hasher_eq, PairList.hasher_run]
    rfl
  refine ⟨rows, h.lists.nodup, fun node e hget => ⟨h.lists.mem_of_get? hget, ?_⟩,
    fun row hmem => ?_, fun row hmem row' hmem' hhash hkey => ?_, h.pairs_eq.symm, ?_,
    fun i hi => ?_, h.lists.safeFor⟩
  · rw [← hhasher]
    exact h.lists.wellFormed.hash_eq node e hget
  · obtain ⟨e, hget, hpair, -⟩ := h.lists.exists_entry hmem
    exact ⟨e, hget, hpair⟩
  · rw [← hhasher] at hhash
    exact h.lists.row_eq hmem hmem' hhash hkey
  · rintro past future rfl
    obtain ⟨-, rows₁, h₁⟩ := h₀.represents.run past
    rw [run_append, PairList.run_append] at h
    exact h₁.rows_run h
  · rw [← hhasher]
    exact h.lists.path_filter hi

end AnyStorage

/-- A key that was taken out and stored again stands behind a key stored in between, in the one
chain that both belong into. -/
theorem chains_of_tagged_keys :
    let k : TaggedKey := ⟨0, "a", "first"⟩
    let k' : TaggedKey := ⟨2, "b", "second"⟩
    let history : List (Operation TaggedKey Nat) :=
      [.insert k 1 id, .insert k' 2 id, .remove k, .insert k 3 id]
    ∃ t₀ : Table TaggedKey Nat, bounded TaggedKey.digest 2 = .ok t₀ ∧
      ∃ rows : List (Row TaggedKey Nat), rows.map Row.pair = [(k', 2), (k, 3)] ∧
        ∀ i < (t₀.run history).capacity, ∃ b nodes, (t₀.run history).buckets[i]? = some b ∧
          (t₀.run history).arena.Path b.first nodes ∧
          nodes = (rows.filter fun row =>
            row.pair.1.digest.toNat % (t₀.run history).capacity == i).map Row.node := by
  intro k k' history
  obtain ⟨t₀, hbounded⟩ : ∃ t₀ : Table TaggedKey Nat, bounded TaggedKey.digest 2 = .ok t₀ :=
    exists_bounded TaggedKey.digest (by decide)
  obtain ⟨rows, -, -, -, -, hpairs, -, hchains, -⟩ := chains_eq_rows (.inr ⟨2, hbounded⟩) history
  refine ⟨t₀, hbounded, rows, hpairs.trans (by rfl), fun i hi => ?_⟩
  obtain ⟨b, nodes, hb, hpath, -, hnodes⟩ := hchains i hi
  exact ⟨b, nodes, hb, hpath, hnodes⟩

end Table

end BulkLookup
