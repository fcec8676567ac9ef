/-
  Util/TimeList.lean --- `TimeList<K, TimeType>` of `util/util_timelist.h`.

  The class keeps a hash map from keys to list iterators and a list whose elements
  hold map iterators.  A list iterator is the number of the list node it points to
  and a map iterator is the key it points to.  `Raw` holds the data as the code has
  it; `TimeList` is the subtype in which the two tables describe the same entries,
  and the operations of the class are operations on it.
-/
import Mathlib.Data.List.AList

set_option autoImplicit false

namespace StormNet.Util

variable {K T : Type}

namespace TimeList

/-- `ListData`: the element of `m_list`, with the node it is stored in. -/
structure ListData (K T : Type) where
  node : Nat
  /-- `mapIterator->first` -/
  key : K
  time : T
  deriving DecidableEq, Repr

/-- The data members.  `next` is the node the next `push_back` allocates. -/
structure Raw (K T : Type) where
  timeout : T
  map : AList (fun _ : K => Nat)
  list : List (ListData K T)
  next : Nat

namespace Raw

/-- `m_list.erase(iterator)`. -/
def eraseNode (l : List (ListData K T)) (node : Nat) : List (ListData K T) :=
  l.filter (fun d => d.node ≠ node)

theorem mem_eraseNode {l : List (ListData K T)} {n : Nat} {d : ListData K T} :
    d ∈ eraseNode l n ↔ d ∈ l ∧ d.node ≠ n := by
  simp [eraseNode]

theorem nodup_eraseNode {l : List (ListData K T)} (n : Nat)
    (h : (l.map ListData.node).Nodup) : ((eraseNode l n).map ListData.node).Nodup :=
  h.sublist (List.filter_sublist.map _)

variable [DecidableEq K]

/-- `TimeList::add`. -/
def add [Add T] (r : Raw K T) (key : K) (now : T) : Raw K T :=
  let kept :=
    match r.map.lookup key with
    | some node => eraseNode r.list node
    | none => r.list
  { r with
    list := kept ++ [⟨r.next, key, now + r.timeout⟩]
    map := r.map.insert key r.next
    next := r.next + 1 }

/-- `TimeList::del`. -/
def del (r : Raw K T) (key : K) : Raw K T :=
  match r.map.lookup key with
  | some node => { r with list := eraseNode r.list node, map := r.map.erase key }
  | none => r

/-- The turn of `timeout` behind the callback: both iterators are erased.  The turn
is at the front of the list, where every turn before it erased its own entry. -/
def eraseFront (r : Raw K T) : Raw K T :=
  match r.list with
  | [] => r
  | d :: rest => { r with list := rest, map := r.map.erase d.key }

/-- The two tables describe the same entries. -/
structure WF (r : Raw K T) : Prop where
  nodup : (r.list.map ListData.node).Nodup
  fresh : ∀ d ∈ r.list, d.node < r.next
  mapped : ∀ d ∈ r.list, r.map.lookup d.key = some d.node
  listed : ∀ k n, r.map.lookup k = some n → ∃ d ∈ r.list, d.key = k ∧ d.node = n

section Lemmas

/-- In a well-formed list an entry is determined by its node. -/
theorem WF.eq_of_node {r : Raw K T} (h : r.WF) {d e : ListData K T} (hd : d ∈ r.list)
    (he : e ∈ r.list) (hn : d.node = e.node) : d = e :=
  List.inj_on_of_nodup_map h.nodup hd he hn

/-- Erasing the node the map has for `key` erases the entries of `key`. -/
theorem WF.mem_eraseNode_iff {r : Raw K T} (h : r.WF) {key : K} {n : Nat}
    (hn : r.map.lookup key = some n) {d : ListData K T} :
    d ∈ eraseNode r.list n ↔ d ∈ r.list ∧ d.key ≠ key := by
  rw [mem_eraseNode]
  apply and_congr_right
  intro hd
  constructor
  · intro hne hkey
    have hmap := h.mapped d hd
    rw [hkey, hn, Option.some.injEq] at hmap
    exact hne hmap.symm
  · intro hkey hnode
    obtain ⟨e, he, hek, hen⟩ := h.listed key n hn
    have hde : d = e := h.eq_of_node hd he (hnode.trans hen.symm)
    exact hkey (hde ▸ hek)

/-- A key without a map entry has no list entry. -/
theorem WF.key_ne_of_lookup_none {r : Raw K T} (h : r.WF) {key : K}
    (hn : r.map.lookup key = none) {d : ListData K T} (hd : d ∈ r.list) : d.key ≠ key := by
  intro hkey
  have hmap := h.mapped d hd
  rw [hkey, hn] at hmap
  cases hmap

/-- The list with `key` taken out, which `add` and `del` start from. -/
theorem WF.mem_kept {r : Raw K T} (h : r.WF) (key : K) (d : ListData K T) :
    (d ∈ match r.map.lookup key with
      | some node => eraseNode r.list node
      | none => r.list) ↔ d ∈ r.list ∧ d.key ≠ key := by
  cases hk : r.map.lookup key with
  | some n => exact h.mem_eraseNode_iff hk
  | none => exact ⟨fun hd => ⟨hd, h.key_ne_of_lookup_none hk hd⟩, fun hd => hd.1⟩

theorem WF.nodup_kept {r : Raw K T} (h : r.WF) (key : K) :
    ((match r.map.lookup key with
      | some node => eraseNode r.list node
      | none => r.list).map ListData.node).Nodup := by
  cases r.map.lookup key with
  | some n => exact nodup_eraseNode n h.nodup
  | none => exact h.nodup

theorem mem_list_add [Add T] {r : Raw K T} (h : r.WF) (key : K) (now : T)
    (d : ListData K T) : d ∈ (r.add key now).list ↔
      (d ∈ r.list ∧ d.key ≠ key) ∨ d = ⟨r.next, key, now + r.timeout⟩ := by
  simp only [add, List.mem_append, List.mem_singleton]
  exact or_congr_left (h.mem_kept key d)

theorem mem_list_del {r : Raw K T} (h : r.WF) (key : K) (d : ListData K T) :
    d ∈ (r.del key).list ↔ d ∈ r.list ∧ d.key ≠ key := by
  rw [← h.mem_kept key d, del]
  cases r.map.lookup key <;> rfl

theorem WF.add [Add T] {r : Raw K T} (h : r.WF) (key : K) (now : T) :
    (r.add key now).WF := by
  have hmem := mem_list_add h key now
  constructor
  · simp only [Raw.add, List.map_append, List.map_cons, List.map_nil]
    refine (h.nodup_kept key).append (List.nodup_singleton _) ?_
    intro n hn hlast
    obtain ⟨d, hd, hdn⟩ := List.mem_map.mp hn
    have hlt := h.fresh d ((h.mem_kept key d).mp hd).1
    rw [List.mem_singleton.mp hlast] at hdn
    omega
  · intro d hd
    show d.node < r.next + 1
    rcases (hmem d).mp hd with ⟨hd, -⟩ | rfl
    · exact Nat.lt_succ_of_lt (h.fresh d hd)
    · exact Nat.lt_succ_self _
  · intro d hd
    show (r.map.insert key r.next).lookup d.key = some d.node
    rcases (hmem d).mp hd with ⟨hd, hne⟩ | rfl
    · rw [AList.lookup_insert_ne hne]
      exact h.mapped d hd
    · exact AList.lookup_insert _
  · intro k n hk
    change (r.map.insert key r.next).lookup k = some n at hk
    by_cases hkey : k = key
    · subst hkey
      rw [AList.lookup_insert, Option.some.injEq] at hk
      exact ⟨_, (hmem _).mpr (Or.inr rfl), rfl, hk⟩
    · rw [AList.lookup_insert_ne hkey] at hk
      obtain ⟨d, hd, hdk, hdn⟩ := h.listed k n hk
      exact ⟨d, (hmem d).mpr (Or.inl ⟨hd, hdk ▸ hkey⟩), hdk, hdn⟩

theorem WF.del {r : Raw K T} (h : r.WF) (key : K) : (r.del key).WF := by
  have hmem := mem_list_del h key
  cases hk : r.map.lookup key with
  | none =>
    rw [Raw.del, hk]
    exact h
  | some node =>
    rw [Raw.del, hk] at hmem ⊢
    constructor
    · exact nodup_eraseNode node h.nodup
    · intro d hd
      exact h.fresh d ((hmem d).mp hd).1
    · intro d hd
      obtain ⟨hd, hne⟩ := (hmem d).mp hd
      show (r.map.erase key).lookup d.key = some d.node
      rw [AList.lookup_erase_ne hne]
      exact h.mapped d hd
    · intro k n hlook
      change (r.map.erase key).lookup k = some n at hlook
      by_cases hkey : k = key
      · subst hkey
        rw [AList.lookup_erase] at hlook
        cases hlook
      · rw [AList.lookup_erase_ne hkey] at hlook
        obtain ⟨d, hd, hdk, hdn⟩ := h.listed k n hlook
        exact ⟨d, (hmem d).mpr ⟨hd, hdk ▸ hkey⟩, hdk, hdn⟩

/-- Erasing the front entry is deleting its key. -/
theorem WF.eraseFront_eq_del {r : Raw K T} (h : r.WF) {d : ListData K T}
    {rest : List (ListData K T)} (hl : r.list = d :: rest) :
    r.eraseFront = r.del d.key := by
  have hd : d ∈ r.list := by rw [hl]; exact List.mem_cons_self
  rw [eraseFront, hl, Raw.del, h.mapped d hd]
  have hnode : ∀ e ∈ rest, e.node ≠ d.node := by
    intro e he heq
    have hnd := h.nodup
    rw [hl, List.map_cons, List.nodup_cons] at hnd
    exact hnd.1 (heq ▸ List.mem_map_of_mem he)
  have hkept : eraseNode r.list d.node = rest := by
    rw [hl, eraseNode, List.filter_cons_of_neg (by simp)]
    exact List.filter_eq_self.mpr (fun e he => by simpa using hnode e he)
  simp only [hkept]

theorem WF.eraseFront {r : Raw K T} (h : r.WF) : r.eraseFront.WF := by
  cases hl : r.list with
  | nil =>
    rw [Raw.eraseFront, hl]
    exact h
  | cons d rest =>
    rw [h.eraseFront_eq_del hl]
    exact h.del d.key

end Lemmas

end Raw

end TimeList

/-! ## The class -/

/-- `TimeList<K, TimeType>`. -/
def TimeList (K T : Type) [DecidableEq K] : Type :=
  { r : TimeList.Raw K T // r.WF }

namespace TimeList

variable [DecidableEq K]

/-- An empty list with the given `m_timeout`. -/
def new (timeout : T) : TimeList K T :=
  ⟨⟨timeout, ∅, [], 0⟩,
    ⟨List.nodup_nil, by simp, by simp, by simp⟩⟩

/-- `TimeList::add`. -/
def add [Add T] (t : TimeList K T) (key : K) (now : T) : TimeList K T :=
  ⟨t.val.add key now, t.property.add key now⟩

/-- `TimeList::del`. -/
def del (t : TimeList K T) (key : K) : TimeList K T :=
  ⟨t.val.del key, t.property.del key⟩

/-- `TimeList::size`. -/
def size (t : TimeList K T) : Nat := t.val.list.length

/-- The key of the front entry if `now >= it->time`: what a turn of `timeout` passes
to the callback. -/
def due [LE T] [DecidableLE T] (t : TimeList K T) (now : T) : Option K :=
  match t.val.list with
  | [] => none
  | d :: _ => if d.time ≤ now then some d.key else none

/-- The turn of `timeout` behind the callback. -/
def eraseFront (t : TimeList K T) : TimeList K T :=
  ⟨t.val.eraseFront, t.property.eraseFront⟩

/-- `key` has an entry: a sweep can reach it. -/
def Live (t : TimeList K T) (key : K) : Prop := ∃ d ∈ t.val.list, d.key = key

instance (t : TimeList K T) (key : K) : Decidable (t.Live key) :=
  inferInstanceAs (Decidable (∃ d ∈ t.val.list, d.key = key))

@[simp] theorem live_new (timeout : T) (key : K) : ¬ (new timeout : TimeList K T).Live key := by
  rintro ⟨d, hd, -⟩
  cases hd

@[simp] theorem live_add [Add T] (t : TimeList K T) (key : K) (now : T) (k : K) :
    (t.add key now).Live k ↔ k = key ∨ t.Live k := by
  have hmem := Raw.mem_list_add t.property key now
  constructor
  · rintro ⟨d, hd, rfl⟩
    rcases (hmem d).mp hd with ⟨hd, -⟩ | rfl
    · exact Or.inr ⟨d, hd, rfl⟩
    · exact Or.inl rfl
  · intro hk
    by_cases hkey : k = key
    · exact ⟨_, (hmem _).mpr (Or.inr rfl), hkey.symm⟩
    · obtain ⟨d, hd, hdk⟩ := hk.resolve_left hkey
      exact ⟨d, (hmem d).mpr (Or.inl ⟨hd, hdk ▸ hkey⟩), hdk⟩

@[simp] theorem live_del (t : TimeList K T) (key k : K) :
    (t.del key).Live k ↔ k ≠ key ∧ t.Live k := by
  have hmem := Raw.mem_list_del t.property key
  constructor
  · rintro ⟨d, hd, rfl⟩
    obtain ⟨hd, hne⟩ := (hmem d).mp hd
    exact ⟨hne, d, hd, rfl⟩
  · rintro ⟨hne, d, hd, rfl⟩
    exact ⟨d, (hmem d).mpr ⟨hd, hne⟩, rfl⟩

/-- The entry a sweep is at is the one its turn erases. -/
theorem eraseFront_eq_del [LE T] [DecidableLE T] {t : TimeList K T} {now : T} {key : K}
    (h : t.due now = some key) : t.eraseFront = t.del key := by
  unfold due at h
  split at h
  · cases h
  · rename_i d rest hl
    split at h
    · rw [Option.some.injEq] at h
      subst h
      exact Subtype.ext (t.property.eraseFront_eq_del hl)
    · cases h

theorem live_of_due [LE T] [DecidableLE T] {t : TimeList K T} {now : T} {key : K}
    (h : t.due now = some key) : t.Live key := by
  unfold due at h
  split at h
  · cases h
  · rename_i d rest hl
    split at h
    · rw [Option.some.injEq] at h
      exact ⟨d, by rw [hl]; exact List.mem_cons_self, h⟩
    · cases h

theorem live_of_eraseFront {t : TimeList K T} {key : K} (h : t.eraseFront.Live key) :
    t.Live key := by
  obtain ⟨d, hd, hkey⟩ := h
  refine ⟨d, ?_, hkey⟩
  have hd : d ∈ t.val.eraseFront.list := hd
  unfold Raw.eraseFront at hd
  split at hd
  · exact hd
  · rename_i hl
    rw [hl]
    exact List.mem_cons_of_mem _ hd

/-- The keys in `m_list`, in order. -/
def keys (t : TimeList K T) : List K := t.val.list.map ListData.key

theorem mem_keys {t : TimeList K T} {key : K} : key ∈ t.keys ↔ t.Live key := List.mem_map

theorem length_keys (t : TimeList K T) : t.keys.length = t.size := List.length_map _

/-- No key is listed twice. -/
theorem nodup_keys (t : TimeList K T) : t.keys.Nodup := by
  have hwf := t.property
  apply List.Nodup.map_on _ hwf.nodup.of_map
  intro d hd e he hkey
  have hmap := hwf.mapped d hd
  rw [hkey, hwf.mapped e he, Option.some.injEq] at hmap
  exact hwf.eq_of_node hd he hmap.symm

end TimeList

end StormNet.Util
