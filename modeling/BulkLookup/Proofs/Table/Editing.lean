import BulkLookup.Proofs.Table.Searching

/-!
# Orderly tables under edits

Attaching an entry, detaching one and changing a value each touch one chain at one place. This
module says, for each of the three, what the handles name afterwards and what the chains are, and
concludes that an orderly table stays orderly, and a well-formed one well formed.

## Main definitions

* `Table.HeadsPaths` — every bucket heads a given path and counts its entries
* `Table.pair?` — the pair behind a handle

## Main results

* `Table.Orderly.attach`, `Table.Orderly.chain_attach` — an entry joins the end of its chain
* `Table.Orderly.detach`, `Table.Orderly.chain_detach` — an entry leaves its chain
* `Table.Orderly.modifyValue`, `Table.Orderly.chain_modifyValue` — a new value moves nothing
* `Table.pair?_attach`, `Table.pair?_detach`, `Table.pair?_modifyValue` — the pairs afterwards
-/

namespace BulkLookup

variable [Storage] {κ ν : Type}

namespace Table

variable {t t' : Table κ ν}

/-- The pair behind a handle, if there is an entry behind it. -/
def pair? (t : Table κ ν) (node : Handle) : Option (κ × ν) :=
  (t.arena.get? node).map fun e => (e.key, e.value)

/-! ### Tables with given chains -/

/-- Every bucket heads the path that `chains` gives for it, and counts the entries on it. -/
def HeadsPaths (t : Table κ ν) (chains : Nat → List Handle) : Prop :=
  ∀ i b, t.buckets[i]? = some b →
    t.arena.Path b.first (chains i) ∧ b.length = (chains i).length

/-- A table has the chains whose paths its buckets head. -/
theorem HeadsPaths.chain_eq {chains : Nat → List Handle} (h : t.HeadsPaths chains) {i : Nat}
    (hi : i < t.capacity) : t.chain i = chains i := by
  obtain ⟨b, hb⟩ := exists_bucket hi
  exact chain_eq_of_path hb (h i b hb).1 (h i b hb).2

namespace Orderly

variable [BEq κ]

/-- A table is orderly if its buckets head paths that hold every entry where it belongs, and if its
entries are in order. -/
theorem of_headsPaths {chains : Nat → List Handle} (hcapacity : 0 < t.capacity)
    (hpaths : t.HeadsPaths chains)
    (hmem : ∀ node e, t.arena.get? node = some e → ∀ i < t.capacity,
      (node ∈ chains i ↔ homeIndex t.capacity e.hash = i))
    (hhash : ∀ node e, t.arena.get? node = some e → e.hash = t.hasher e.key)
    (hnode : ∀ node node' e e', t.arena.get? node = some e → t.arena.get? node' = some e' →
      e.isFor e'.hash e'.key → node = node') :
    t.Orderly where
  capacity_pos := hcapacity
  path_chain i b hb := by
    have hi : i < t.capacity := (Array.getElem?_eq_some_iff.1 hb).1
    rw [hpaths.chain_eq hi]
    exact hpaths i b hb
  mem_chain_iff node e hget i hi := by
    rw [hpaths.chain_eq hi]
    exact hmem node e hget i hi
  hash_eq := hhash
  node_eq := hnode

/-- A table all of whose entries stem from an orderly table, with their keys and hashes, is orderly
as soon as its buckets head paths that hold every entry where it belongs. -/
theorem of_entries (ht : t.Orderly) {chains : Nat → List Handle} (hcapacity : 0 < t'.capacity)
    (hhasher : t'.hasher = t.hasher)
    (hentries : ∀ node e, t'.arena.get? node = some e →
      ∃ e₀, t.arena.get? node = some e₀ ∧ e.key = e₀.key ∧ e.hash = e₀.hash)
    (hpaths : t'.HeadsPaths chains)
    (hmem : ∀ node e, t'.arena.get? node = some e → ∀ i < t'.capacity,
      (node ∈ chains i ↔ homeIndex t'.capacity e.hash = i)) :
    t'.Orderly := by
  refine of_headsPaths hcapacity hpaths hmem (fun node e hget => ?_) ?_
  · obtain ⟨e₀, hget₀, hkey, hhash⟩ := hentries node e hget
    rw [hhasher, hkey, hhash]
    exact ht.hash_eq node e₀ hget₀
  · intro node node' e e' hget hget' hfor
    obtain ⟨e₀, hget₀, hkey, hhash⟩ := hentries node e hget
    obtain ⟨e₀', hget₀', hkey', hhash'⟩ := hentries node' e' hget'
    rw [Entry.isFor_congr hkey hhash, hkey', hhash'] at hfor
    exact ht.node_eq node node' e₀ e₀' hget₀ hget₀' hfor

end Orderly

/-! ### Attaching -/

section Attach

variable {hash : UInt64} {tail : Option Handle} {key : κ} {value : ν}

theorem hasher_attach (t : Table κ ν) (hash : UInt64) (tail : Option Handle) (key : κ) (value : ν) :
    (t.attach hash tail key value).2.hasher = t.hasher := by
  obtain ⟨hasher, buckets, arena, ceiling⟩ := t
  cases tail <;> rfl

/-- The new handle named nothing before. -/
theorem get?_attach_fresh (t : Table κ ν) (hash : UInt64) (tail : Option Handle) (key : κ)
    (value : ν) : t.arena.get? (t.attach hash tail key value).1 = none := by
  obtain ⟨hasher, buckets, arena, ceiling⟩ := t
  cases tail <;> exact arena.get?_insert_fresh _

/-- What handles name after an entry was attached behind a live one: the new handle names the new
entry, and the one before it links to it. -/
theorem get?_attach (hlive : ∀ last, tail = some last → (t.arena.get? last).isSome)
    (node : Handle) :
    (t.attach hash tail key value).2.arena.get? node =
      if node = (t.attach hash tail key value).1 then some ⟨key, value, hash, none⟩
      else if tail = some node then
        (t.arena.get? node).map fun e => { e with next := some (t.attach hash tail key value).1 }
      else t.arena.get? node := by
  have hfresh := t.get?_attach_fresh hash tail key value
  obtain ⟨hasher, buckets, arena, ceiling⟩ := t
  cases tail with
  | none =>
    simp only [attach, reduceCtorEq, if_false]
    split
    · next heq => rw [heq, Arena.get?_insert_self]
    · next hne => exact Arena.get?_insert_of_ne hne
  | some last =>
    simp only [attach, Option.some.injEq, Arena.get?_modify, eq_comm (a := last)] at hfresh ⊢
    -- The entry before the new one was there before, the new one was not.
    have hlast : last ≠ (arena.insert ⟨key, value, hash, none⟩).1 := by
      rintro rfl
      have := hlive _ rfl
      simp [hfresh] at this
    split
    · next heq =>
      subst heq
      rw [if_neg hlast, Arena.get?_insert_of_ne hlast]
    · next hne =>
      split
      · next heq => rw [heq, Arena.get?_insert_self]
      · next hnode => exact Arena.get?_insert_of_ne hnode

theorem buckets_attach (t : Table κ ν) (hash : UInt64) (tail : Option Handle) (key : κ)
    (value : ν) :
    (t.attach hash tail key value).2.buckets =
      t.buckets.modify (homeIndex t.capacity hash) fun b =>
        ⟨tail.elim (some (t.attach hash tail key value).1) fun _ => b.first, b.length + 1⟩ := by
  obtain ⟨hasher, buckets, arena, ceiling⟩ := t
  cases tail <;> rfl

theorem nextOf?_attach (hlive : ∀ last, tail = some last → (t.arena.get? last).isSome)
    {node : Handle} (hnode : (t.arena.get? node).isSome) :
    (t.attach hash tail key value).2.arena.nextOf? node =
      if tail = some node then some (some (t.attach hash tail key value).1)
      else t.arena.nextOf? node := by
  obtain ⟨e, hget⟩ := Option.isSome_iff_exists.1 hnode
  have hne : node ≠ (t.attach hash tail key value).1 := by
    rintro rfl
    simp [get?_attach_fresh] at hget
  rw [Arena.nextOf?, Arena.nextOf?, get?_attach hlive, if_neg hne, hget]
  split <;> rfl

theorem pair?_attach (hlive : ∀ last, tail = some last → (t.arena.get? last).isSome)
    (node : Handle) :
    (t.attach hash tail key value).2.pair? node =
      if node = (t.attach hash tail key value).1 then some (key, value) else t.pair? node := by
  rw [pair?, pair?, get?_attach hlive]
  split
  · rfl
  · split
    · rw [Option.map_map]
      rfl
    · rfl

variable [BEq κ]

theorem Orderly.isSome_get?_of_getLast? (ht : t.Orderly) (hash : UInt64) (last : Handle)
    (hlast : (t.chain (homeIndex t.capacity hash)).getLast? = some last) :
    (t.arena.get? last).isSome :=
  ht.isSome_get?_of_mem (ht.homeIndex_lt_capacity hash) (List.mem_of_getLast? hlast)

/-- The entry behind which another one may be attached is there. -/
theorem Orderly.isSome_get?_of_tail (ht : t.Orderly)
    (htail : tail = (t.chain (homeIndex t.capacity hash)).getLast?) (last : Handle)
    (hlast : tail = some last) : (t.arena.get? last).isSome :=
  ht.isSome_get?_of_getLast? hash last (htail.symm.trans hlast)

/-- An entry attached behind the last one of its chain goes on from there, and the other chains stay
as they are. -/
theorem Orderly.headsPaths_attach (ht : t.Orderly)
    (htail : tail = (t.chain (homeIndex t.capacity hash)).getLast?) :
    (t.attach hash tail key value).2.HeadsPaths fun i =>
      if i = homeIndex t.capacity hash then t.chain i ++ [(t.attach hash tail key value).1]
      else t.chain i := by
  have hlive := ht.isSome_get?_of_tail htail
  intro i b' hb'
  rw [buckets_attach, Array.getElem?_modify] at hb'
  split at hb'
  · next hi =>
    obtain rfl := hi
    obtain ⟨b, hb, rfl⟩ := Option.map_eq_some_iff.1 hb'
    obtain ⟨hpath, hlength⟩ := ht.path_chain _ b hb
    dsimp only
    rw [if_pos rfl, List.length_append, List.length_singleton, hlength]
    refine ⟨?_, rfl⟩
    have hnode : (t.attach hash tail key value).2.arena.nextOf? (t.attach hash tail key value).1 =
        some none := by
      rw [Arena.nextOf?, get?_attach hlive, if_pos rfl]
      rfl
    have hpath' := hpath.append_singleton hnode fun other hmem => by
      rw [nextOf?_attach hlive (hpath.isSome_get? hmem), htail]
    -- The bucket names the new entry exactly if it named none before.
    rw [← htail] at hpath'
    exact hpath'
  · next hi =>
    obtain ⟨hpath, hlength⟩ := ht.path_chain i b' hb'
    dsimp only
    rw [if_neg (Ne.symm hi)]
    refine ⟨hpath.congr fun other hmem => ?_, hlength⟩
    rw [nextOf?_attach hlive (hpath.isSome_get? hmem), if_neg]
    -- The entry that got a new link is in another chain.
    intro hlast
    rw [htail] at hlast
    exact hi (ht.eq_of_mem_chain (ht.homeIndex_lt_capacity hash)
      (Array.getElem?_eq_some_iff.1 hb').1 (List.mem_of_getLast? hlast) hmem)

/-- A new entry joins the end of its chain, and no other chain changes. -/
theorem Orderly.chain_attach (ht : t.Orderly)
    (htail : tail = (t.chain (homeIndex t.capacity hash)).getLast?) {i : Nat}
    (hi : i < t.capacity) :
    (t.attach hash tail key value).2.chain i =
      if i = homeIndex t.capacity hash then t.chain i ++ [(t.attach hash tail key value).1]
      else t.chain i :=
  (ht.headsPaths_attach htail).chain_eq (by rwa [capacity_attach])

omit [BEq κ] in
/-- Every entry is the new one, or an old one with its key and hash. -/
theorem get?_attach_cases (hlive : ∀ last, tail = some last → (t.arena.get? last).isSome)
    {node : Handle} {e : Entry κ ν}
    (hget : (t.attach hash tail key value).2.arena.get? node = some e) :
    (node = (t.attach hash tail key value).1 ∧ e.key = key ∧ e.hash = hash) ∨
      ∃ e₀, t.arena.get? node = some e₀ ∧ e.key = e₀.key ∧ e.hash = e₀.hash := by
  rw [get?_attach hlive] at hget
  split at hget
  · next heq =>
    obtain rfl := Option.some.inj hget
    exact .inl ⟨heq, rfl, rfl⟩
  · split at hget
    · obtain ⟨e₀, hget₀, rfl⟩ := Option.map_eq_some_iff.1 hget
      exact .inr ⟨e₀, hget₀, rfl, rfl⟩
    · exact .inr ⟨e, hget, rfl, rfl⟩

omit [BEq κ] in
/-- No old entry is behind the new handle. -/
theorem ne_attach_of_isSome {node : Handle} (hlive : (t.arena.get? node).isSome) :
    node ≠ (t.attach hash tail key value).1 := by
  rintro rfl
  rw [get?_attach_fresh] at hlive
  cases hlive

/-- Every entry is in the chain to which its hash leads. -/
theorem Orderly.mem_chain_attach_iff (ht : t.Orderly)
    (hlive : ∀ last, tail = some last → (t.arena.get? last).isSome) {node : Handle}
    {e : Entry κ ν} (hget : (t.attach hash tail key value).2.arena.get? node = some e) {i : Nat}
    (hi : i < t.capacity) :
    (node ∈ if i = homeIndex t.capacity hash then t.chain i ++ [(t.attach hash tail key value).1]
      else t.chain i) ↔ homeIndex t.capacity e.hash = i := by
  rcases get?_attach_cases hlive hget with ⟨rfl, -, hhash⟩ | ⟨e₀, hget₀, -, hhash⟩
  · -- The new handle is in no old chain.
    have hfresh : (t.attach hash tail key value).1 ∉ t.chain i := fun hmem =>
      ne_attach_of_isSome (ht.isSome_get?_of_mem hi hmem) rfl
    rw [hhash]
    split
    · next heq => simp [heq]
    · next hne => exact iff_of_false hfresh (Ne.symm hne)
  · have hne : node ≠ (t.attach hash tail key value).1 :=
      ne_attach_of_isSome (Option.isSome_iff_exists.2 ⟨e₀, hget₀⟩)
    rw [hhash, ← ht.mem_chain_iff node e₀ hget₀ i hi]
    split
    · rw [List.mem_append, List.mem_singleton, or_iff_left hne]
    · rfl

/-- A table stays orderly when an entry for a key that no entry is for joins the chain of that
key. -/
theorem Orderly.attach [PartialEquivBEq κ] (ht : t.Orderly)
    (htail : tail = (t.chain (homeIndex t.capacity (t.hasher key))).getLast?)
    (hnew : ∀ node e, t.arena.get? node = some e → ¬ e.isFor (t.hasher key) key) :
    (t.attach (t.hasher key) tail key value).2.Orderly := by
  have hlive := ht.isSome_get?_of_tail htail
  refine of_headsPaths ?_ (ht.headsPaths_attach htail) ?_ ?_ ?_
  · rw [capacity_attach]
    exact ht.capacity_pos
  · intro node e hget i hi
    rw [capacity_attach] at hi ⊢
    exact ht.mem_chain_attach_iff hlive hget hi
  · intro node e hget
    rw [hasher_attach]
    rcases get?_attach_cases hlive hget with ⟨-, hkey, hhash⟩ | ⟨e₀, hget₀, hkey, hhash⟩
    · rw [hkey, hhash]
    · rw [hkey, hhash]
      exact ht.hash_eq node e₀ hget₀
  · intro node node' e e' hget hget' hfor
    -- Either of the two may be the new entry.
    rcases get?_attach_cases hlive hget with ⟨rfl, hk, hh⟩ | ⟨e₀, hget₀, hk, hh⟩ <;>
      rcases get?_attach_cases hlive hget' with ⟨rfl, hk', hh'⟩ | ⟨e₀', hget₀', hk', hh'⟩
    · rfl
    · -- An old entry would be for the key of the new one.
      have hold := Entry.isFor_symm hfor
      rw [Entry.isFor_congr hk' hh', hk, hh] at hold
      exact absurd hold (hnew node' e₀' hget₀')
    · rw [Entry.isFor_congr hk hh, hk', hh'] at hfor
      exact absurd hfor (hnew node e₀ hget₀)
    · rw [Entry.isFor_congr hk hh, hk', hh'] at hfor
      exact ht.node_eq node node' e₀ e₀' hget₀ hget₀' hfor

/-- A table stays well formed when an entry for a key that no entry is for joins the chain of that
key. -/
theorem WellFormed.attach [PartialEquivBEq κ] (ht : t.WellFormed)
    (htail : tail = (t.chain (homeIndex t.capacity (t.hasher key))).getLast?)
    (hnew : ∀ node e, t.arena.get? node = some e → ¬ e.isFor (t.hasher key) key) :
    (t.attach (t.hasher key) tail key value).2.WellFormed where
  toOrderly := ht.toOrderly.attach htail hnew
  capacity_isPowerOfTwo := by
    rw [capacity_attach]
    exact ht.capacity_isPowerOfTwo

end Attach

/-! ### Detaching -/

section Detach

variable {before : Option Handle} {node : Handle} {e : Entry κ ν}

theorem hasher_detach (t : Table κ ν) (before : Option Handle) (node : Handle) (e : Entry κ ν) :
    (t.detach before node e).hasher = t.hasher := by
  obtain ⟨hasher, buckets, arena, ceiling⟩ := t
  cases before <;> rfl

/-- What handles name after an entry was detached: its own handle names nothing, and the entry
before it links to the one behind it. -/
theorem get?_detach (hbefore : before ≠ some node) (other : Handle) :
    (t.detach before node e).arena.get? other =
      if other = node then none
      else if before = some other then (t.arena.get? other).map fun e' => { e' with next := e.next }
      else t.arena.get? other := by
  obtain ⟨hasher, buckets, arena, ceiling⟩ := t
  cases before with
  | none =>
    simp only [detach, reduceCtorEq, if_false]
    exact arena.get?_remove node other
  | some previous =>
    simp only [detach, Option.some.injEq, Arena.get?_modify, Arena.get?_remove] at hbefore ⊢
    by_cases hprevious : other = previous
    · obtain rfl := hprevious
      have hne : other ≠ node := fun heq => hbefore (congrArg some heq)
      rw [if_pos rfl, if_neg hne, if_neg hne, if_pos rfl]
    · rw [if_neg hprevious, if_neg (Ne.symm hprevious)]

theorem buckets_detach (t : Table κ ν) (before : Option Handle) (node : Handle) (e : Entry κ ν) :
    (t.detach before node e).buckets =
      t.buckets.modify (homeIndex t.capacity e.hash) fun b =>
        ⟨before.elim e.next fun _ => b.first, b.length - 1⟩ := by
  obtain ⟨hasher, buckets, arena, ceiling⟩ := t
  cases before <;> rfl

theorem nextOf?_detach (hbefore : before ≠ some node) {other : Handle} (hother : other ≠ node)
    (hlive : (t.arena.get? other).isSome) :
    (t.detach before node e).arena.nextOf? other =
      if before = some other then some e.next else t.arena.nextOf? other := by
  obtain ⟨e', hget⟩ := Option.isSome_iff_exists.1 hlive
  rw [Arena.nextOf?, Arena.nextOf?, get?_detach hbefore, if_neg hother, hget]
  split <;> rfl

theorem pair?_detach (hbefore : before ≠ some node) (other : Handle) :
    (t.detach before node e).pair? other = if other = node then none else t.pair? other := by
  rw [pair?, pair?, get?_detach hbefore]
  split
  · rfl
  · split
    · rw [Option.map_map]
      rfl
    · rfl

variable [BEq κ] {earlier after : List Handle}

/-- An entry is not the one before it in its chain. -/
theorem Orderly.getLast?_ne_of_chain_eq (ht : t.Orderly) {i : Nat} (hi : i < t.capacity)
    (hchain : t.chain i = earlier ++ node :: after) : earlier.getLast? ≠ some node := by
  intro hlast
  have hnodup := ht.nodup_chain hi
  rw [hchain, List.nodup_append] at hnodup
  exact hnodup.2.2 node (List.mem_of_getLast? hlast) node List.mem_cons_self rfl

/-- A chain without one of its entries is what is before and behind that entry. -/
theorem Orderly.filter_chain_eq (ht : t.Orderly) {i : Nat} (hi : i < t.capacity)
    (hchain : t.chain i = earlier ++ node :: after) :
    (t.chain i).filter (· ≠ node) = earlier ++ after := by
  have hnodup := ht.nodup_chain hi
  rw [hchain, List.nodup_append, List.nodup_cons] at hnodup
  obtain ⟨-, ⟨hafter, -⟩, hearlier⟩ := hnodup
  rw [hchain, List.filter_append, List.filter_cons_of_neg (by simp)]
  congr 1
  · apply List.filter_eq_self.2
    intro other hmem
    exact decide_eq_true (hearlier other hmem node List.mem_cons_self)
  · apply List.filter_eq_self.2
    intro other hmem
    exact decide_eq_true fun heq => hafter (heq ▸ hmem)

/-- A chain from which an entry is detached passes over it, and the other chains stay as they
are. -/
theorem Orderly.headsPaths_detach (ht : t.Orderly) (hget : t.arena.get? node = some e)
    (hchain : t.chain (homeIndex t.capacity e.hash) = earlier ++ node :: after) :
    (t.detach earlier.getLast? node e).HeadsPaths fun i => (t.chain i).filter (· ≠ node) := by
  have hhome := ht.homeIndex_lt_capacity e.hash
  have hbefore := ht.getLast?_ne_of_chain_eq hhome hchain
  intro i b' hb'
  rw [buckets_detach, Array.getElem?_modify] at hb'
  split at hb'
  · next hi =>
    obtain rfl := hi
    obtain ⟨b, hb, rfl⟩ := Option.map_eq_some_iff.1 hb'
    obtain ⟨hpath, hlength⟩ := ht.path_chain _ b hb
    dsimp only
    rw [ht.filter_chain_eq hhome hchain]
    -- No path passes an entry twice, and so the rest of the chain is without it.
    have hnode : node ∉ earlier ++ after := by
      rw [← ht.filter_chain_eq hhome hchain]
      simp
    rw [hchain] at hpath hlength
    constructor
    · refine hpath.unlink (by rw [Arena.nextOf?, hget]; rfl) fun other hmem => ?_
      have hmem' : other ∈ earlier ++ node :: after := by
        rw [List.mem_append, List.mem_cons]
        exact (List.mem_append.1 hmem).imp_right .inr
      exact nextOf?_detach hbefore (fun heq => hnode (heq ▸ hmem)) (hpath.isSome_get? hmem')
    · rw [hlength, List.length_append, List.length_cons, List.length_append]
      omega
  · next hi =>
    obtain ⟨hpath, hlength⟩ := ht.path_chain i b' hb'
    have hi' : i < t.capacity := (Array.getElem?_eq_some_iff.1 hb').1
    -- Neither the entry itself nor the one before it is in any other chain.
    have hother : ∀ other ∈ earlier ++ [node], other ∉ t.chain i := by
      intro other hmem hmem'
      have hmem'' : other ∈ t.chain (homeIndex t.capacity e.hash) := by
        rw [hchain, List.mem_append, List.mem_cons]
        rw [List.mem_append, List.mem_singleton] at hmem
        exact hmem.imp_right .inl
      exact hi (ht.eq_of_mem_chain hhome hi' hmem'' hmem')
    have hnode : node ∉ t.chain i := hother node (List.mem_append_right _ List.mem_cons_self)
    have hfilter : (t.chain i).filter (· ≠ node) = t.chain i :=
      List.filter_eq_self.2 fun other hmem => decide_eq_true fun heq => hnode (heq ▸ hmem)
    dsimp only
    rw [hfilter]
    refine ⟨hpath.congr fun other hmem => ?_, hlength⟩
    rw [nextOf?_detach hbefore (fun heq => hnode (heq ▸ hmem)) (hpath.isSome_get? hmem), if_neg]
    exact fun hlast => hother other (List.mem_append_left _ (List.mem_of_getLast? hlast)) hmem

/-- An entry that is detached leaves its chain, and no other chain changes. -/
theorem Orderly.chain_detach (ht : t.Orderly) (hget : t.arena.get? node = some e)
    (hchain : t.chain (homeIndex t.capacity e.hash) = earlier ++ node :: after) {i : Nat}
    (hi : i < t.capacity) :
    (t.detach earlier.getLast? node e).chain i = (t.chain i).filter (· ≠ node) :=
  (ht.headsPaths_detach hget hchain).chain_eq (by rwa [capacity_detach])

/-- A table stays orderly when an entry leaves its chain. -/
theorem Orderly.detach (ht : t.Orderly) (hget : t.arena.get? node = some e)
    (hchain : t.chain (homeIndex t.capacity e.hash) = earlier ++ node :: after) :
    (t.detach earlier.getLast? node e).Orderly := by
  have hbefore := ht.getLast?_ne_of_chain_eq (ht.homeIndex_lt_capacity e.hash) hchain
  have hentries : ∀ other e', (t.detach earlier.getLast? node e).arena.get? other = some e' →
      other ≠ node ∧ ∃ e₀, t.arena.get? other = some e₀ ∧ e'.key = e₀.key ∧ e'.hash = e₀.hash := by
    intro other e' hget'
    rw [get?_detach hbefore] at hget'
    split at hget'
    · cases hget'
    · next hne =>
      refine ⟨hne, ?_⟩
      split at hget'
      · obtain ⟨e₀, hget₀, rfl⟩ := Option.map_eq_some_iff.1 hget'
        exact ⟨e₀, hget₀, rfl, rfl⟩
      · exact ⟨e', hget', rfl, rfl⟩
  refine ht.of_entries ?_ (hasher_detach ..) (fun other e' hget' => (hentries other e' hget').2)
    (ht.headsPaths_detach hget hchain) ?_
  · rw [capacity_detach]
    exact ht.capacity_pos
  · intro other e' hget' i hi
    obtain ⟨hne, e₀, hget₀, -, hhash⟩ := hentries other e' hget'
    rw [capacity_detach] at hi ⊢
    rw [hhash, ← ht.mem_chain_iff other e₀ hget₀ i hi, List.mem_filter]
    exact and_iff_left (decide_eq_true hne)

/-- A table stays well formed when an entry leaves its chain. -/
theorem WellFormed.detach (ht : t.WellFormed) (hget : t.arena.get? node = some e)
    (hchain : t.chain (homeIndex t.capacity e.hash) = earlier ++ node :: after) :
    (t.detach earlier.getLast? node e).WellFormed where
  toOrderly := ht.toOrderly.detach hget hchain
  capacity_isPowerOfTwo := by
    rw [capacity_detach]
    exact ht.capacity_isPowerOfTwo

end Detach

/-! ### Changing values -/

section ModifyValue

variable {node : Handle} {f : ν → ν}

theorem get?_modifyValue (t : Table κ ν) (node : Handle) (f : ν → ν) (other : Handle) :
    (t.modifyValue node f).arena.get? other =
      if other = node then (t.arena.get? other).map fun e => { e with value := f e.value }
      else t.arena.get? other :=
  t.arena.get?_modify node other _

theorem nextOf?_modifyValue (t : Table κ ν) (node : Handle) (f : ν → ν) (other : Handle) :
    (t.modifyValue node f).arena.nextOf? other = t.arena.nextOf? other := by
  rw [Arena.nextOf?, Arena.nextOf?, get?_modifyValue]
  split
  · rw [Option.map_map]
    rfl
  · rfl

theorem pair?_modifyValue (t : Table κ ν) (node : Handle) (f : ν → ν) (other : Handle) :
    (t.modifyValue node f).pair? other =
      if other = node then (t.pair? other).map fun pair => (pair.1, f pair.2)
      else t.pair? other := by
  rw [pair?, pair?, get?_modifyValue]
  split
  · rw [Option.map_map, Option.map_map]
    rfl
  · rfl

variable [BEq κ]

theorem Orderly.headsPaths_modifyValue (ht : t.Orderly) :
    (t.modifyValue node f).HeadsPaths t.chain := fun i b hb =>
  ⟨(ht.path_chain i b hb).1.congr fun other _ => nextOf?_modifyValue t node f other,
    (ht.path_chain i b hb).2⟩

/-- A new value moves no entry. -/
theorem Orderly.chain_modifyValue (ht : t.Orderly) {i : Nat} (hi : i < t.capacity) :
    (t.modifyValue node f).chain i = t.chain i :=
  ht.headsPaths_modifyValue.chain_eq hi

/-- A table stays orderly when the value of an entry changes. -/
theorem Orderly.modifyValue (ht : t.Orderly) : (t.modifyValue node f).Orderly := by
  have hentries : ∀ other e, (t.modifyValue node f).arena.get? other = some e →
      ∃ e₀, t.arena.get? other = some e₀ ∧ e.key = e₀.key ∧ e.hash = e₀.hash := by
    intro other e hget
    rw [get?_modifyValue] at hget
    split at hget
    · obtain ⟨e₀, hget₀, rfl⟩ := Option.map_eq_some_iff.1 hget
      exact ⟨e₀, hget₀, rfl, rfl⟩
    · exact ⟨e, hget, rfl, rfl⟩
  refine ht.of_entries ht.capacity_pos rfl hentries ht.headsPaths_modifyValue ?_
  intro other e hget i hi
  obtain ⟨e₀, hget₀, -, hhash⟩ := hentries other e hget
  rw [hhash]
  exact ht.mem_chain_iff other e₀ hget₀ i hi

/-- A table stays well formed when the value of an entry changes. -/
theorem WellFormed.modifyValue (ht : t.WellFormed) : (t.modifyValue node f).WellFormed where
  toOrderly := ht.toOrderly.modifyValue
  capacity_isPowerOfTwo := ht.capacity_isPowerOfTwo

end ModifyValue

end Table

end BulkLookup
